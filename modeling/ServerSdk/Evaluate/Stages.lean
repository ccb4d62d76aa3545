import ServerSdk.Evaluate.Evaluate

namespace ServerSdk

open Program

def Listed (iter : Json) (key : String) (variation : Rat) : Prop :=
  iter.getType = .object ∧ iter.objectLookup "key" = some (.text key) ∧
    iter.objectLookup "variation" = some (.number variation)

section Flag

variable {σ : Type} {client : Client σ} {user : User} {ev : Json → Run σ Evaluation} {flag : Json}
  {out : Outputs}

theorem checkPrerequisitesWith_of_object (h : flag.getType = .object)
    (events : Option (List Json)) :
    checkPrerequisitesWith client user ev flag events =
      match optionalField flag "prerequisites" .array with
      | .mistyped => pure ⟨.schema, none, events⟩
      | .absent => pure ⟨.matched, none, events⟩
      | .present prerequisites =>
          checkPrerequisiteList client user ev flag prerequisites.getIter
            ⟨.matched, none, events⟩ := by
  have hlook := lookupOptional_of_object h "prerequisites" .array
  exact Run.lift_bind_of_ok hlook _

theorem checkPrerequisite_of_listed {iter : Json} {key : String} {variation : Rat}
    (h : Listed iter key variation) (acc : Prerequisites) :
    checkPrerequisite client user ev flag iter acc =
      Run.ask client.world.unixMilliseconds >>= fun timestamp =>
        storeGet client.world .flag key >>= fun found =>
          match found with
          | none => pure { acc with failedKey := some key, status := .store }
          | some none => pure { acc with failedKey := some key, status := .miss }
          | some (some preflag) => ev preflag >>= fun result =>
              Run.lift (prerequisiteOutcome client user flag preflag (.number variation) key
                timestamp { acc with failedKey := some key } result) := by
  obtain ⟨hobj, hkey, hvar⟩ := h
  have hk : requiredField iter "key" .text = some (.text key) :=
    requiredField_eq_some.mpr ⟨hkey, rfl⟩
  have hv : requiredField iter "variation" .number = some (.number variation) :=
    requiredField_eq_some.mpr ⟨hvar, rfl⟩
  simp only [checkPrerequisite, hobj, lookupRequired_of_object hobj, hk, hv, Run.lift_ok, pure_bind]
  rfl

theorem checkPrerequisite_of_unlisted {iter : Json} (h : ∀ key variation, ¬ Listed iter key variation)
    (acc : Prerequisites) :
    checkPrerequisite client user ev flag iter acc =
      Run.ask client.world.unixMilliseconds >>= fun _ => pure { acc with status := .schema } := by
  simp only [checkPrerequisite]
  congr 1
  funext timestamp
  by_cases hobj : iter.getType = .object
  · simp only [hobj, lookupRequired_of_object hobj, Run.lift_ok, pure_bind]
    cases hkey : requiredField iter "key" .text with
    | none => rfl
    | some key =>
        cases hvar : requiredField iter "variation" .number with
        | none => rfl
        | some variation =>
            obtain ⟨hk, hkt⟩ := requiredField_eq_some.mp hkey
            obtain ⟨hv, hvt⟩ := requiredField_eq_some.mp hvar
            obtain ⟨keyText, rfl⟩ := Json.getType_eq_text.mp hkt
            obtain ⟨n, rfl⟩ := Json.getType_eq_number.mp hvt
            exact absurd ⟨hobj, hk, hv⟩ (h keyText n)
  · simp only [hobj, ne_eq, not_false_eq_true, if_true]

theorem prerequisiteOutcome_failedKey {preflag variation : Json} {key : String} {t : Rat}
    {acc p : Prerequisites} {result : Evaluation}
    (h : prerequisiteOutcome client user flag preflag variation key t acc result = .ok p) :
    p.failedKey = acc.failedKey := by
  simp only [prerequisiteOutcome] at h
  split at h
  · cases h
    rfl
  · obtain ⟨event, -, hrest⟩ := Checked.bind_eq_ok.mp h
    cases event with
    | none =>
        cases hrest
        rfl
    | some event =>
        simp only at hrest
        split at hrest
        · cases hrest
          rfl
        · obtain ⟨status, -, hlast⟩ := Checked.bind_eq_ok.mp hrest
          cases hlast
          rfl

theorem checkPrerequisite_failedKey {iter : Json} {acc p : Prerequisites} {s t : σ}
    (h : checkPrerequisite client user ev flag iter acc s = .ok (p, t)) (hmiss : p.status = .miss) :
    ∃ key, p.failedKey = some key := by
  by_cases hlisted : ∃ key variation, Listed iter key variation
  · obtain ⟨key, variation, hlisted⟩ := hlisted
    rw [checkPrerequisite_of_listed hlisted] at h
    obtain ⟨timestamp, u, -, hget⟩ := Run.bind_eq_ok.mp h
    obtain ⟨found, v, -, hfound⟩ := Run.bind_eq_ok.mp hget
    match found with
    | none =>
        cases hfound
        cases hmiss
    | some none =>
        cases hfound
        exact ⟨key, rfl⟩
    | some (some preflag) =>
        obtain ⟨result, z, -, hlift⟩ := Run.bind_eq_ok.mp hfound
        obtain ⟨houtcome, -⟩ := Run.lift_eq_ok.mp hlift
        exact ⟨key, prerequisiteOutcome_failedKey houtcome⟩
  · rw [checkPrerequisite_of_unlisted (fun key variation hl => hlisted ⟨key, variation, hl⟩)] at h
    cases h
    cases hmiss

theorem checkPrerequisiteList_failedKey {list : List Json} {acc p : Prerequisites} {s t : σ}
    (h : checkPrerequisiteList client user ev flag list acc s = .ok (p, t))
    (hmiss : p.status = .miss) : ∃ key, p.failedKey = some key := by
  induction list generalizing acc s with
  | nil =>
      cases h
      cases hmiss
  | cons iter list ih =>
      obtain ⟨q, u, hcheck, hrest⟩ := Run.bind_eq_ok.mp h
      split at hrest
      · exact ih hrest
      · cases hrest
        exact checkPrerequisite_failedKey hcheck hmiss

theorem checkPrerequisitesWith_failedKey (hobj : flag.getType = .object)
    {events : Option (List Json)} {p : Prerequisites} {s t : σ}
    (h : checkPrerequisitesWith client user ev flag events s = .ok (p, t))
    (hmiss : p.status = .miss) : ∃ key, p.failedKey = some key := by
  rw [checkPrerequisitesWith_of_object hobj] at h
  cases hpre : optionalField flag "prerequisites" .array with
  | mistyped =>
      rw [hpre] at h
      cases h
      cases hmiss
  | absent =>
      rw [hpre] at h
      cases h
      cases hmiss
  | present prerequisites =>
      rw [hpre] at h
      exact checkPrerequisiteList_failedKey h hmiss

variable [Externals]

theorem evaluateWith_of_not_object (h : flag.getType ≠ .object) :
    evaluateWith client user ev flag out = pure (.schema, out) := by
  simp only [evaluateWith, h, ne_eq, not_false_eq_true, if_true]

theorem evaluateWith_of_object (h : flag.getType = .object) :
    evaluateWith client user ev flag out =
      match optionalField flag "on" .bool with
      | .mistyped => pure (.schema, out)
      | on =>
        if on.isTrue then
          checkPrerequisitesWith client user ev flag out.events >>=
            evaluateAfterPrerequisites client user flag out
        else Run.lift (evaluateOff flag out) := by
  simp only [evaluateWith, h, lookupOptional_of_object h, Run.lift_ok, pure_bind]
  rfl

theorem evaluateWith_of_mistyped (h : flag.getType = .object)
    (hon : optionalField flag "on" .bool = .mistyped) :
    evaluateWith client user ev flag out = pure (.schema, out) := by
  rw [evaluateWith_of_object h, hon]

theorem evaluateWith_of_on (h : flag.getType = .object)
    (hon : (optionalField flag "on" .bool).isTrue = true) :
    evaluateWith client user ev flag out =
      checkPrerequisitesWith client user ev flag out.events >>=
        evaluateAfterPrerequisites client user flag out := by
  rw [evaluateWith_of_object h]
  cases hf : optionalField flag "on" .bool with
  | mistyped =>
      rw [hf] at hon
      cases hon
  | absent =>
      rw [hf] at hon
      cases hon
  | present on =>
      rw [hf] at hon
      simp only [hon, if_true]

theorem evaluateWith_of_off (h : flag.getType = .object)
    (hm : optionalField flag "on" .bool ≠ .mistyped)
    (hoff : (optionalField flag "on" .bool).isTrue = false) :
    evaluateWith client user ev flag out = Run.lift (evaluateOff flag out) := by
  rw [evaluateWith_of_object h]
  cases hf : optionalField flag "on" .bool with
  | mistyped => exact absurd hf hm
  | absent => rfl
  | present on =>
      rw [hf] at hoff
      simp only [hoff]
      rfl

end Flag

end ServerSdk
