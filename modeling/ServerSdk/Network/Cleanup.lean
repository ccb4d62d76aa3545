import ServerSdk.Network.Moves

namespace ServerSdk

open Program

namespace NetworkThread

variable {ω ι : Type} {calls : InterfaceCalls ω ι} {busy : ω → Bool} {thread next : NetworkThread ω}
  {event : ThreadEvent ι} {index handle : ℕ} {context : ω}

theorem Accounted.destroy (h : thread.Accounted) (hgone : thread.currentOf index = none) :
    (thread.destroy index).Accounted := by
  have hrenewed : (thread.update index ⟨(thread.interfaces index).context, none⟩).Accounted := by
    have hrenew := @Accounted.renew _ thread index h (thread.interfaces index).context
    rwa [hgone] at hrenew
  exact ⟨hrenewed.attached, hrenewed.single, hrenewed.freed, hrenewed.once, hrenewed.current,
    hrenewed.owner, hrenewed.kept⟩

theorem Accounted.releaseAndDestroy (h : thread.Accounted) (hsome : thread.currentOf index = some handle) :
    ((thread.removeAndFreeHandle handle).destroy index).Accounted := by
  obtain ⟨hlt, hfreed⟩ := h.current index handle hsome
  have hreleased := @Accounted.release _ thread index handle (thread.interfaces index).context h hlt hfreed
    (fun other hother => h.owner other index handle hother hsome)
    fun other hother => Option.some.inj (hother.symm.trans hsome)
  exact ⟨hreleased.attached, hreleased.single, hreleased.freed, hreleased.once, hreleased.current,
    hreleased.owner, hreleased.kept⟩

theorem currentOf_destroy (thread : NetworkThread ω) (index other : ℕ) :
    (thread.destroy index).currentOf other =
      if other = index then none else thread.currentOf other :=
  currentOf_update thread ⟨(thread.interfaces index).context, none⟩ other

theorem Closing.destroy (h : thread.Closing index) (hindex : index < thread.interfacecount) :
    (thread.destroy index).Closing (index + 1) := by
  refine ⟨hindex, ?_, ?_⟩
  · rw [List.range_succ, ← h.destroyed]
    rfl
  · intro other hother
    rw [currentOf_destroy]
    split_ifs with hsame
    · rfl
    · exact h.gone other (by omega)

theorem Closing.enter {phase : NetworkPhase} (h : thread.Closing index) :
    (thread.enter phase).Closing index := ⟨h.bound, h.destroyed, h.gone⟩

theorem Sound.closed {next : NetworkThread ω} (haccounted : next.Accounted)
    (hinside : ∀ index handle, next.currentOf index = some handle → index < next.interfacecount)
    (hclosing : next.Closing index) : (next.enter (.cleanup index)).Sound busy := by
  refine ⟨haccounted.enter _, hinside, fun hruns => hruns.elim, ?_, ?_⟩
  · intro other hphase
    cases hphase
    exact hclosing.enter
  · intro cleaned hphase
    cases hphase

theorem Sound.left {cleaned : Bool} (h : thread.Sound busy) (hclosing : thread.Closing index)
    (hcleaned : cleaned = true → index = thread.interfacecount) :
    (thread.enter (.exited cleaned)).Sound busy := by
  refine ⟨h.accounted.enter _, h.inside, fun hruns => hruns.elim, ?_, ?_⟩
  · intro other hphase
    cases hphase
  · intro cleaned hphase
    cases hphase
    exact ⟨index, hclosing.enter, hcleaned⟩

theorem inside_destroy (h : ∀ index handle, thread.currentOf index = some handle →
      index < thread.interfacecount) (other handle : ℕ)
    (hsome : (thread.destroy index).currentOf other = some handle) : other < thread.interfacecount := by
  rw [currentOf_destroy] at hsome
  split_ifs at hsome
  exact h other handle hsome

theorem Sound.renew (h : thread.Sound busy)
    (hbusy : busy context = busy (thread.interfaces index).context) :
    (thread.update index ⟨context, thread.currentOf index⟩).Sound busy := by
  have hcurrent (other : ℕ) :
      (thread.update index ⟨context, thread.currentOf index⟩).currentOf other = thread.currentOf other := by
    rw [currentOf_update]
    split_ifs with hsame
    · rw [hsame]
    · rfl
  have hclosing {other : ℕ} (hclosing : thread.Closing other) :
      (thread.update index ⟨context, thread.currentOf index⟩).Closing other := by
    refine ⟨hclosing.bound, hclosing.destroyed, ?_⟩
    intro another hlt
    rw [hcurrent]
    exact hclosing.gone another hlt
  refine ⟨h.accounted.renew context, ?_, ?_, ?_, ?_⟩
  · intro other handle hsome
    rw [hcurrent] at hsome
    exact h.inside other handle hsome
  · intro hruns
    obtain ⟨hattached, hdestroyed⟩ := h.running hruns
    exact ⟨hattached.renew hbusy, hdestroyed⟩
  · exact fun other hphase => hclosing (h.cleaning other hphase)
  · intro cleaned hphase
    obtain ⟨other, hother, hcleaned⟩ := h.exited cleaned hphase
    exact ⟨other, hclosing hother, hcleaned⟩

theorem Running.idle (h : thread.Running busy) (hbusy : busy (thread.interfaces index).context = false) :
    thread.currentOf index = none := by
  rw [← Option.not_isSome_iff_eq_none, ← h.attached.busy, hbusy]
  exact Bool.false_ne_true

theorem Sound.polling (h : thread.Sound busy) (hphase : thread.phase = .polling index) :
    thread.Running busy := h.runs (by rw [hphase]; trivial)

theorem Sound.step (hcalls : calls.OneAtATime busy) (h : thread.Sound busy)
    (hmoves : Moves calls thread event next) : next.Sound busy := by
  cases hmoves with
  | stayed => exact h
  | entered hruns hphase =>
      rcases hphase with hphase | rfl
      · exact (h.runs hruns).enter hphase
      · exact (h.runs hruns).failed.cleanup
  | written _ _ hwrite => exact h.renew (hcalls.write hwrite)
  | recorded hrecord => exact h.renew (hcalls.record hrecord)
  | idle hphase hpoll => exact ((h.polling hphase).renew (hcalls.nothing hpoll)).enter trivial
  | killed hphase hpoll hsome =>
      exact ((h.polling hphase).release hsome (hcalls.killed hpoll).2).enter trivial
  | added hphase hindex hpoll =>
      obtain ⟨hidle, hbusy⟩ := hcalls.created hpoll
      have hrunning := h.polling hphase
      exact (hrunning.opened (hrunning.idle hidle) hindex hbusy).2.enter trivial
  | notAdded hphase hindex hpoll =>
      obtain ⟨hidle, hbusy⟩ := hcalls.created hpoll
      have hrunning := h.polling hphase
      exact (hrunning.opened (hrunning.idle hidle) hindex hbusy).1.cleanup
  | ended hruns hadded _ hdone _ =>
      have hsome := ((h.runs hruns).attached.current_iff _ _).mpr hadded
      exact ((h.runs hruns).release hsome (hcalls.done hdone)).stay hruns
  | stuck hruns _ _ _ _ => exact (h.runs hruns).forget.cleanup
  | destroyed hphase hindex hgone =>
      exact .closed (h.accounted.destroy hgone) (inside_destroy h.inside)
        ((h.cleaning _ hphase).destroy hindex)
  | released hphase hindex hsome =>
      have hclosing := h.cleaning _ hphase
      refine .closed (h.accounted.releaseAndDestroy hsome) (inside_destroy h.inside) ?_
      exact Closing.destroy ⟨hclosing.bound, hclosing.destroyed, hclosing.gone⟩ hindex
  | gaveUp hphase _ _ => exact h.left (h.cleaning _ hphase) fun hcleaned => by cases hcleaned
  | exited hphase hindex =>
      have hclosing := h.cleaning _ hphase
      exact h.left hclosing fun _ => le_antisymm hclosing.bound (not_lt.mp hindex)

def Removes : ThreadEvent ι → Prop
  | .message _ message _ => message.removed = true
  | .remove removed => removed = true
  | _ => True

instance : DecidablePred (Removes (ι := ι))
  | .message _ message _ => inferInstanceAs (Decidable (message.removed = true))
  | .remove removed => inferInstanceAs (Decidable (removed = true))
  | .lock _ _ | .write _ _ | .performed | .poll _ _ | .noMessage | .wait _ | .multiCleanup _
  | .record _ _ => inferInstanceAs (Decidable True)

def Owned (thread : NetworkThread ω) : Prop :=
  ∀ handle index, (handle, index) ∈ thread.multihandle → thread.currentOf index = some handle

theorem Owned.renew (h : thread.Owned) :
    (thread.update index ⟨context, thread.currentOf index⟩).Owned := by
  intro handle other hadded
  rw [currentOf_update]
  split_ifs with hsame
  · rw [← hsame]
    exact h handle other hadded
  · exact h handle other hadded

theorem Owned.release (h : thread.Owned) (hsome : thread.currentOf index = some handle) :
    ((thread.removeAndFreeHandle handle).update index ⟨context, none⟩).Owned := by
  intro other another hadded
  obtain ⟨hadded, hne⟩ := mem_removeAndFreeHandle.mp hadded
  have hcurrent := h other another hadded
  have hdifferent : another ≠ index := by
    rintro rfl
    exact hne (Option.some.inj (hcurrent.symm.trans hsome))
  rw [currentOf_update, if_neg hdifferent]
  exact hcurrent

theorem Owned.vacant (h : thread.Owned) (hgone : thread.currentOf index = none) {current : Option ℕ} :
    (thread.update index ⟨context, current⟩).Owned := by
  intro handle other hadded
  have hcurrent := h handle other hadded
  have hdifferent : other ≠ index := by
    rintro rfl
    cases hgone.symm.trans hcurrent
  rw [currentOf_update, if_neg hdifferent]
  exact hcurrent

theorem Owned.step (hcalls : calls.OneAtATime busy) (hsound : thread.Sound busy) (h : thread.Owned)
    (hremoves : Removes event) (hmoves : Moves calls thread event next) : next.Owned := by
  cases hmoves with
  | stayed => exact h
  | entered hruns hphase => exact h
  | written _ _ hwrite => exact h.renew
  | recorded hrecord => exact h.renew
  | idle hphase hpoll => exact h.renew
  | killed hphase hpoll hsome => exact h.release hsome
  | added hphase hindex hpoll =>
      obtain ⟨hidle, hbusy⟩ := hcalls.created hpoll
      have hrunning := hsound.polling hphase
      have hattached := (hrunning.opened (hrunning.idle hidle) hindex hbusy).2.attached
      exact fun handle other hadded => (hattached.current_iff other handle).mpr hadded
  | notAdded hphase hindex hpoll =>
      exact h.vacant ((hsound.polling hphase).idle (hcalls.created hpoll).1)
  | ended hruns hadded _ hdone _ => exact h.release (h _ _ hadded)
  | stuck hruns _ _ _ hremoved => cases hremoves.symm.trans hremoved
  | destroyed hphase hindex hgone => exact h.vacant hgone
  | released hphase hindex hsome => exact h.release hsome
  | gaveUp hphase _ _ => cases hremoves
  | exited hphase hindex => exact h

theorem Sound.cleaned (h : thread.Sound busy) (howned : thread.Owned)
    (hexited : thread.phase = .exited true) : thread.multihandle = [] ∧
      thread.freed.Perm (List.range thread.created) ∧
        thread.destroyed = List.range thread.interfacecount := by
  obtain ⟨index, hclosing, hcleaned⟩ := h.exited true hexited
  obtain rfl := hcleaned rfl
  have hgone (other handle : ℕ) : thread.currentOf other ≠ some handle := by
    intro hsome
    cases (hclosing.gone other (h.inside other handle hsome)).symm.trans hsome
  have hempty : thread.multihandle = [] := by
    refine List.eq_nil_iff_forall_not_mem.mpr ?_
    rintro ⟨handle, other⟩ hadded
    exact hgone other handle (howned handle other hadded)
  refine ⟨hempty, ?_, hclosing.destroyed⟩
  refine (List.perm_ext_iff_of_nodup h.accounted.once List.nodup_range).mpr ?_
  intro handle
  rw [List.mem_range]
  refine ⟨h.accounted.freed handle, fun hlt => ?_⟩
  rcases h.accounted.kept handle hlt with hmem | ⟨other, hadded⟩ | ⟨other, hsome⟩
  · exact hmem
  · rw [hempty] at hadded
    cases hadded
  · exact absurd hsome (hgone other handle)

theorem Sound.halts {halt : Halt} (hcalls : calls.OneAtATime busy) (h : thread.Sound busy)
    (hstep : thread.step calls event = .error halt) : Halts calls thread halt event := by
  have hstepped := stepped calls thread event
  rw [hstep] at hstepped
  cases hstepped with
  | halted hhalts => exact hhalts
  | unheld hphase hpoll hnone =>
      have hbusy := (hcalls.killed hpoll).1
      rw [(h.polling hphase).attached.busy, hnone] at hbusy
      cases hbusy

end NetworkThread

end ServerSdk
