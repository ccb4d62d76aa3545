import Mathlib.Data.List.Nodup
import ServerSdk.Network.Thread

namespace ServerSdk

open Program

structure InterfaceCalls.OneAtATime {ω ι : Type} (calls : InterfaceCalls ω ι) (busy : ω → Bool) :
    Prop where
  nothing {context next : ω} {input : ι} :
    calls.poll context input = .ok (.nothing, next) → busy next = busy context
  killed {context next : ω} {input : ι} :
    calls.poll context input = .ok (.killed, next) → busy context = true ∧ busy next = false
  created {context next : ω} {input : ι} :
    calls.poll context input = .ok (.created, next) → busy context = false ∧ busy next = true
  write {context next : ω} {input : ι} : calls.write context input = .ok next → busy next = busy context
  done {context next : ω} {responseCode : Int} {input : ι} :
    calls.done context responseCode input = .ok next → busy next = false
  record {context next : ω} {input : ι} :
    calls.record context input = .ok next → busy next = busy context

def NetworkPhase.Runs : NetworkPhase → Prop
  | .cleanup _ | .exited _ => False
  | _ => True

namespace NetworkThread

variable {ω ι : Type} {thread next : NetworkThread ω} {index handle : ℕ} {context : ω}

def currentOf (thread : NetworkThread ω) (index : ℕ) : Option ℕ := (thread.interfaces index).current

structure Accounted (thread : NetworkThread ω) : Prop where
  attached : ∀ handle index, (handle, index) ∈ thread.multihandle →
    handle < thread.created ∧ handle ∉ thread.freed
  single : (thread.multihandle.map Prod.fst).Nodup
  freed : ∀ handle ∈ thread.freed, handle < thread.created
  once : thread.freed.Nodup
  current : ∀ index handle, thread.currentOf index = some handle →
    handle < thread.created ∧ handle ∉ thread.freed
  owner : ∀ index other handle, thread.currentOf index = some handle →
    thread.currentOf other = some handle → index = other
  kept : ∀ handle < thread.created, handle ∈ thread.freed ∨
    (∃ index, (handle, index) ∈ thread.multihandle) ∨ ∃ index, thread.currentOf index = some handle

structure Attached (busy : ω → Bool) (thread : NetworkThread ω) : Prop where
  current_iff : ∀ index handle, thread.currentOf index = some handle ↔
    (handle, index) ∈ thread.multihandle
  busy : ∀ index, busy (thread.interfaces index).context = (thread.currentOf index).isSome

theorem currentOf_update (thread : NetworkThread ω) (interface : NetworkInterface ω) (other : ℕ) :
    (thread.update index interface).currentOf other =
      if other = index then interface.current else thread.currentOf other := by
  change (Function.update thread.interfaces index interface other).current = _
  rw [Function.update_apply]
  split_ifs <;> rfl

theorem accounted_start (contexts : ℕ → ω) (interfacecount : ℕ) :
    (start contexts interfacecount).Accounted := by
  refine ⟨?_, List.nodup_nil, ?_, List.nodup_nil, ?_, ?_, ?_⟩
  · intro handle index h
    cases h
  · intro handle h
    cases h
  · intro index handle h
    cases h
  · intro index other handle h
    cases h
  · intro handle h
    cases h

theorem Accounted.renew (h : thread.Accounted) (context : ω) :
    (thread.update index ⟨context, thread.currentOf index⟩).Accounted := by
  have hcurrent (other : ℕ) :
      (thread.update index ⟨context, thread.currentOf index⟩).currentOf other =
        thread.currentOf other := by
    rw [currentOf_update]
    split_ifs with hother
    · rw [hother]
    · rfl
  refine ⟨h.attached, h.single, h.freed, h.once, ?_, ?_, ?_⟩
  · intro other handle hother
    rw [hcurrent] at hother
    exact h.current other handle hother
  · intro other another handle hother hanother
    rw [hcurrent] at hother hanother
    exact h.owner other another handle hother hanother
  · intro handle hlt
    simp only [hcurrent]
    exact h.kept handle hlt

theorem mem_removeAndFreeHandle {added : ℕ × ℕ} :
    added ∈ (thread.removeAndFreeHandle handle).multihandle ↔
      added ∈ thread.multihandle ∧ added.1 ≠ handle := by
  simp [removeAndFreeHandle]

theorem mem_freed {other : ℕ} : other ∈ (thread.removeAndFreeHandle handle).freed ↔
    other ∈ thread.freed ∨ other = handle := by
  simp [removeAndFreeHandle]

theorem Accounted.release (h : thread.Accounted) (hlt : handle < thread.created)
    (hfreed : handle ∉ thread.freed) (hindex : ∀ other, thread.currentOf other = some handle → other = index)
    (hcurrent : ∀ other, thread.currentOf index = some other → other = handle) :
    ((thread.removeAndFreeHandle handle).update index ⟨context, none⟩).Accounted := by
  have hother {other another : ℕ} (hsome :
      ((thread.removeAndFreeHandle handle).update index ⟨context, none⟩).currentOf other =
        some another) : other ≠ index ∧ thread.currentOf other = some another ∧ another ≠ handle := by
    rw [currentOf_update] at hsome
    split_ifs at hsome with hsame
    refine ⟨hsame, hsome, ?_⟩
    rintro rfl
    exact hsame (hindex other hsome)
  refine ⟨?_, ?_, ?_, ?_, ?_, ?_, ?_⟩
  · intro other another hadded
    obtain ⟨hadded, hne⟩ := mem_removeAndFreeHandle.mp hadded
    obtain ⟨hcreated, hnot⟩ := h.attached other another hadded
    refine ⟨hcreated, ?_⟩
    rintro hmem
    rcases mem_freed.mp hmem with hmem | rfl
    · exact hnot hmem
    · exact hne rfl
  · exact h.single.sublist (List.filter_sublist.map Prod.fst)
  · intro other hmem
    rcases mem_freed.mp hmem with hmem | rfl
    · exact h.freed other hmem
    · exact hlt
  · exact List.nodup_append.mpr ⟨h.once, List.nodup_singleton handle, fun other hother another hanother => by
      rintro rfl
      rw [List.mem_singleton.mp hanother] at hother
      exact hfreed hother⟩
  · intro other another hsome
    obtain ⟨-, hsome, hne⟩ := hother hsome
    obtain ⟨hcreated, hnot⟩ := h.current other another hsome
    refine ⟨hcreated, ?_⟩
    rintro hmem
    exact (mem_freed.mp hmem).elim hnot hne
  · intro other another held hsome hsome'
    exact h.owner other another held (hother hsome).2.1 (hother hsome').2.1
  · intro other hcreated
    by_cases hsame : other = handle
    · exact .inl (mem_freed.mpr (.inr hsame))
    rcases h.kept other hcreated with hmem | ⟨another, hadded⟩ | ⟨another, hsome⟩
    · exact .inl (mem_freed.mpr (.inl hmem))
    · exact .inr (.inl ⟨another, mem_removeAndFreeHandle.mpr ⟨hadded, hsame⟩⟩)
    · refine .inr (.inr ⟨another, ?_⟩)
      have hne : another ≠ index := by
        rintro rfl
        exact hsame (hcurrent other hsome)
      rw [currentOf_update, if_neg hne]
      exact hsome

theorem Accounted.forget (h : thread.Accounted)
    (hattached : ∀ handle, thread.currentOf index = some handle →
      ∃ other, (handle, other) ∈ thread.multihandle) :
    (thread.update index ⟨context, none⟩).Accounted := by
  have hother {other another : ℕ}
      (hsome : (thread.update index ⟨context, none⟩).currentOf other = some another) :
      thread.currentOf other = some another := by
    rw [currentOf_update] at hsome
    split_ifs at hsome
    exact hsome
  refine ⟨h.attached, h.single, h.freed, h.once, ?_, ?_, ?_⟩
  · exact fun other another hsome => h.current other another (hother hsome)
  · exact fun other another held hsome hsome' =>
      h.owner other another held (hother hsome) (hother hsome')
  · intro other hcreated
    rcases h.kept other hcreated with hmem | hadded | ⟨another, hsome⟩
    · exact .inl hmem
    · exact .inr (.inl hadded)
    · by_cases hsame : another = index
      · subst hsame
        exact .inr (.inl (hattached other hsome))
      · refine .inr (.inr ⟨another, ?_⟩)
        rw [currentOf_update, if_neg hsame]
        exact hsome

theorem currentOf_opened {other another : ℕ} :
    (thread.opened index context).currentOf other = some another ↔
      (other = index ∧ another = thread.created) ∨
        (other ≠ index ∧ thread.currentOf other = some another) := by
  change (thread.update index ⟨context, some thread.created⟩).currentOf other = some another ↔ _
  rw [currentOf_update]
  split_ifs with hsame
  · simp [hsame, eq_comm]
  · simp [hsame]

theorem Accounted.opened (h : thread.Accounted) (hidle : thread.currentOf index = none) :
    (thread.opened index context).Accounted := by
  refine ⟨?_, h.single, ?_, h.once, ?_, ?_, ?_⟩
  · intro handle other hadded
    obtain ⟨hlt, hfreed⟩ := h.attached handle other hadded
    exact ⟨Nat.lt_succ_of_lt hlt, hfreed⟩
  · exact fun handle hmem => Nat.lt_succ_of_lt (h.freed handle hmem)
  · intro other handle hsome
    rcases currentOf_opened.mp hsome with ⟨rfl, rfl⟩ | ⟨-, hsome⟩
    · exact ⟨Nat.lt_succ_self _, fun hmem => absurd (h.freed _ hmem) (lt_irrefl _)⟩
    · obtain ⟨hlt, hfreed⟩ := h.current other handle hsome
      exact ⟨Nat.lt_succ_of_lt hlt, hfreed⟩
  · intro other another handle hsome hsome'
    rcases currentOf_opened.mp hsome with ⟨rfl, rfl⟩ | ⟨-, hold⟩
    · rcases currentOf_opened.mp hsome' with ⟨rfl, -⟩ | ⟨-, hold⟩
      · rfl
      · exact absurd (h.current _ _ hold).1 (lt_irrefl _)
    · rcases currentOf_opened.mp hsome' with ⟨rfl, rfl⟩ | ⟨-, hold'⟩
      · exact absurd (h.current _ _ hold).1 (lt_irrefl _)
      · exact h.owner other another handle hold hold'
  · intro handle hlt
    rcases Nat.lt_succ_iff_lt_or_eq.mp hlt with hlt | rfl
    · rcases h.kept handle hlt with hmem | hadded | ⟨other, hsome⟩
      · exact .inl hmem
      · exact .inr (.inl hadded)
      · refine .inr (.inr ⟨other, currentOf_opened.mpr (.inr ⟨?_, hsome⟩)⟩)
        rintro rfl
        cases hidle.symm.trans hsome
    · exact .inr (.inr ⟨index, currentOf_opened.mpr (.inl ⟨rfl, rfl⟩)⟩)

theorem Accounted.addHandle (h : thread.Accounted) (hsome : thread.currentOf index = some handle)
    (hattached : ∀ other, (handle, other) ∉ thread.multihandle) :
    (thread.addHandle index handle).Accounted := by
  refine ⟨?_, ?_, h.freed, h.once, h.current, h.owner, ?_⟩
  · intro other another hadded
    rcases List.mem_append.mp hadded with hadded | hadded
    · exact h.attached other another hadded
    · cases List.mem_singleton.mp hadded
      exact h.current index handle hsome
  · have hfresh : handle ∉ thread.multihandle.map Prod.fst := by
      intro hmem
      obtain ⟨added, hadded, rfl⟩ := List.mem_map.mp hmem
      exact hattached added.2 hadded
    rw [NetworkThread.addHandle, List.map_append, List.map_singleton, ← List.concat_eq_append]
    exact h.single.concat hfresh
  · intro other hlt
    rcases h.kept other hlt with hmem | ⟨another, hadded⟩ | hsome
    · exact .inl hmem
    · exact .inr (.inl ⟨another, List.mem_append_left _ hadded⟩)
    · exact .inr (.inr hsome)

variable {busy : ω → Bool}

theorem busy_update (hbusy : ∀ index, busy (thread.interfaces index).context =
      (thread.currentOf index).isSome) {current : Option ℕ} (hcontext : busy context = current.isSome)
    (other : ℕ) : busy ((thread.update index ⟨context, current⟩).interfaces other).context =
      ((thread.update index ⟨context, current⟩).currentOf other).isSome := by
  rw [currentOf_update]
  change busy (Function.update thread.interfaces index ⟨context, current⟩ other).context = _
  rw [Function.update_apply]
  split_ifs
  · exact hcontext
  · exact hbusy other

theorem Attached.renew (h : thread.Attached busy)
    (hbusy : busy context = busy (thread.interfaces index).context) :
    (thread.update index ⟨context, thread.currentOf index⟩).Attached busy := by
  refine ⟨?_, busy_update h.busy (hbusy.trans (h.busy index))⟩
  intro other handle
  rw [currentOf_update]
  split_ifs with hsame
  · rw [hsame]
    exact h.current_iff index handle
  · exact h.current_iff other handle

theorem Attached.release (h : thread.Attached busy) (hsome : thread.currentOf index = some handle)
    (hbusy : busy context = false) (howner : ∀ other, thread.currentOf other = some handle → other = index) :
    ((thread.removeAndFreeHandle handle).update index ⟨context, none⟩).Attached busy := by
  refine ⟨?_, @busy_update _ (thread.removeAndFreeHandle handle) index context busy h.busy none hbusy⟩
  intro other another
  change _ ↔ (another, other) ∈ (thread.removeAndFreeHandle handle).multihandle
  rw [currentOf_update, mem_removeAndFreeHandle]
  split_ifs with hsame
  · subst hsame
    refine iff_of_false (by simp) ?_
    rintro ⟨hadded, hne⟩
    have hcurrent := (h.current_iff other another).mpr hadded
    rw [hsome] at hcurrent
    exact hne (Option.some.inj hcurrent).symm
  · change thread.currentOf other = some another ↔ _
    rw [h.current_iff]
    refine ⟨fun hadded => ⟨hadded, ?_⟩, And.left⟩
    rintro rfl
    exact hsame (howner other ((h.current_iff other another).mpr hadded))

theorem Attached.opened (h : thread.Attached busy) (hidle : thread.currentOf index = none)
    (hbusy : busy context = true) :
    ((thread.opened index context).addHandle index thread.created).Attached busy := by
  refine ⟨?_, @busy_update _ thread index context busy h.busy (some thread.created) hbusy⟩
  intro other handle
  change (thread.opened index context).currentOf other = some handle ↔
    (handle, other) ∈ thread.multihandle ++ [(thread.created, index)]
  rw [currentOf_opened, List.mem_append, List.mem_singleton, Prod.mk.injEq]
  constructor
  · rintro (⟨rfl, rfl⟩ | ⟨-, hsome⟩)
    · exact .inr ⟨rfl, rfl⟩
    · exact .inl ((h.current_iff other handle).mp hsome)
  · rintro (hadded | ⟨rfl, rfl⟩)
    · have hsome := (h.current_iff other handle).mpr hadded
      refine .inr ⟨?_, hsome⟩
      rintro rfl
      cases hidle.symm.trans hsome
    · exact .inl ⟨rfl, rfl⟩

structure Closing (index : ℕ) (thread : NetworkThread ω) : Prop where
  bound : index ≤ thread.interfacecount
  destroyed : thread.destroyed = List.range index
  gone : ∀ other < index, thread.currentOf other = none

structure Sound (busy : ω → Bool) (thread : NetworkThread ω) : Prop where
  accounted : thread.Accounted
  inside : ∀ index handle, thread.currentOf index = some handle → index < thread.interfacecount
  running : thread.phase.Runs → thread.Attached busy ∧ thread.destroyed = []
  cleaning : ∀ index, thread.phase = .cleanup index → thread.Closing index
  exited : ∀ cleaned, thread.phase = .exited cleaned →
    ∃ index, thread.Closing index ∧ (cleaned = true → index = thread.interfacecount)

theorem sound_start {contexts : ℕ → ω} {interfacecount : ℕ}
    (hbusy : ∀ index, busy (contexts index) = false) : (start contexts interfacecount).Sound busy := by
  refine ⟨accounted_start contexts interfacecount, ?_, fun _ => ⟨⟨?_, hbusy⟩, rfl⟩, ?_, ?_⟩
  · intro index handle h
    cases h
  · intro index handle
    exact iff_of_false (by simp [currentOf, start]) (by simp [start])
  · intro index h
    cases h
  · intro cleaned h
    cases h

theorem Accounted.enter (h : thread.Accounted) (phase : NetworkPhase) : (thread.enter phase).Accounted :=
  ⟨h.attached, h.single, h.freed, h.once, h.current, h.owner, h.kept⟩

theorem Attached.enter (h : thread.Attached busy) (phase : NetworkPhase) :
    (thread.enter phase).Attached busy := ⟨h.current_iff, h.busy⟩

structure Running (busy : ω → Bool) (thread : NetworkThread ω) : Prop where
  accounted : thread.Accounted
  inside : ∀ index handle, thread.currentOf index = some handle → index < thread.interfacecount
  attached : thread.Attached busy
  destroyed : thread.destroyed = []

structure Failed (thread : NetworkThread ω) : Prop where
  accounted : thread.Accounted
  inside : ∀ index handle, thread.currentOf index = some handle → index < thread.interfacecount
  destroyed : thread.destroyed = []

theorem Sound.runs (h : thread.Sound busy) (hruns : thread.phase.Runs) : thread.Running busy :=
  ⟨h.accounted, h.inside, (h.running hruns).1, (h.running hruns).2⟩

theorem Running.failed (h : thread.Running busy) : thread.Failed := ⟨h.accounted, h.inside, h.destroyed⟩

theorem Failed.cleanup (h : thread.Failed) : (thread.enter (.cleanup 0)).Sound busy := by
  refine ⟨h.accounted.enter _, h.inside, fun hruns => hruns.elim, ?_, ?_⟩
  · intro index hphase
    cases hphase
    exact ⟨Nat.zero_le _, h.destroyed, fun other hother => absurd hother (Nat.not_lt_zero _)⟩
  · intro cleaned hphase
    cases hphase

theorem Running.enter {phase : NetworkPhase} (h : thread.Running busy) (hruns : phase.Runs) :
    (thread.enter phase).Sound busy := by
  refine ⟨h.accounted.enter _, h.inside, fun _ => ⟨h.attached.enter _, h.destroyed⟩, ?_, ?_⟩
  · intro index hphase
    cases hphase
    exact hruns.elim
  · intro cleaned hphase
    cases hphase
    exact hruns.elim

theorem Running.stay (h : thread.Running busy) (hruns : thread.phase.Runs) : thread.Sound busy :=
  h.enter hruns

theorem inside_update {interface : NetworkInterface ω} {count : ℕ}
    (h : ∀ index handle, thread.currentOf index = some handle → index < count)
    (hcurrent : ∀ handle, interface.current = some handle → index < count) (other handle : ℕ)
    (hsome : (thread.update index interface).currentOf other = some handle) : other < count := by
  rw [currentOf_update] at hsome
  split_ifs at hsome with hsame
  · rw [hsame]
    exact hcurrent handle hsome
  · exact h other handle hsome

theorem Running.renew (h : thread.Running busy)
    (hbusy : busy context = busy (thread.interfaces index).context) :
    (thread.update index ⟨context, thread.currentOf index⟩).Running busy :=
  ⟨h.accounted.renew context, inside_update h.inside fun handle hsome => h.inside index handle hsome,
    h.attached.renew hbusy, h.destroyed⟩

theorem Running.owner (h : thread.Running busy) (hsome : thread.currentOf index = some handle) :
    ∀ other, thread.currentOf other = some handle → other = index :=
  fun other hother => h.accounted.owner other index handle hother hsome

theorem Running.release (h : thread.Running busy) (hsome : thread.currentOf index = some handle)
    (hbusy : busy context = false) :
    ((thread.removeAndFreeHandle handle).update index ⟨context, none⟩).Running busy := by
  obtain ⟨hlt, hfreed⟩ := h.accounted.current index handle hsome
  refine ⟨h.accounted.release hlt hfreed (h.owner hsome) fun other hother => ?_, ?_,
    h.attached.release hsome hbusy (h.owner hsome), h.destroyed⟩
  · exact Option.some.inj (hother.symm.trans hsome)
  · refine @inside_update _ (thread.removeAndFreeHandle handle) index ⟨context, none⟩ _ h.inside ?_
    intro other hother
    cases hother

theorem Running.forget (h : thread.Running busy) : (thread.update index ⟨context, none⟩).Failed := by
  refine ⟨h.accounted.forget fun handle hsome => ⟨index, (h.attached.current_iff _ _).mp hsome⟩, ?_,
    h.destroyed⟩
  refine inside_update h.inside ?_
  intro other hother
  cases hother

theorem Running.opened (h : thread.Running busy) (hidle : thread.currentOf index = none)
    (hindex : index < thread.interfacecount) (hbusy : busy context = true) :
    (thread.opened index context).Failed ∧
      ((thread.opened index context).addHandle index thread.created).Running busy := by
  have hinside : ∀ other handle, (thread.opened index context).currentOf other = some handle →
      other < thread.interfacecount := by
    intro other handle hsome
    rcases currentOf_opened.mp hsome with ⟨rfl, -⟩ | ⟨-, hold⟩
    · exact hindex
    · exact h.inside other handle hold
  have hfresh (other : ℕ) : (thread.created, other) ∉ thread.multihandle := fun hadded =>
    absurd (h.accounted.attached _ _ hadded).1 (lt_irrefl _)
  have hopened : (thread.opened index context).Accounted := h.accounted.opened hidle
  exact ⟨⟨hopened, hinside, h.destroyed⟩,
    ⟨hopened.addHandle (currentOf_opened.mpr (.inl ⟨rfl, rfl⟩)) hfresh, hinside,
      h.attached.opened hidle hbusy, h.destroyed⟩⟩

end NetworkThread

end ServerSdk
