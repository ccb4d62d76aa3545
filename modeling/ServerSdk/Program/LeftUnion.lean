import ServerSdk.Program.Keyed

namespace Program

variable {κ β : Type}

def leftUnion (maps : List (κ → Option β)) (key : κ) : Option β := maps.findSome? fun map => map key

@[simp] theorem leftUnion_nil (key : κ) : leftUnion ([] : List (κ → Option β)) key = none := rfl

@[simp] theorem leftUnion_cons (map : κ → Option β) (maps : List (κ → Option β)) (key : κ) :
    leftUnion (map :: maps) key = (map key).or (leftUnion maps key) := by
  rw [leftUnion, List.findSome?_cons, leftUnion]
  cases map key <;> rfl

@[simp] theorem leftUnion_append (maps maps' : List (κ → Option β)) (key : κ) :
    leftUnion (maps ++ maps') key = (leftUnion maps key).or (leftUnion maps' key) :=
  List.findSome?_append

def FirstDefines (maps : List (κ → Option β)) (key : κ) (b : β) : Prop :=
  ∃ before map after, maps = before ++ map :: after ∧ map key = some b ∧
    ∀ earlier ∈ before, earlier key = none

theorem leftUnion_eq_some_iff {maps : List (κ → Option β)} {key : κ} {b : β} :
    leftUnion maps key = some b ↔ FirstDefines maps key b :=
  List.findSome?_eq_some_iff

theorem leftUnion_eq_none_iff {maps : List (κ → Option β)} {key : κ} :
    leftUnion maps key = none ↔ ∀ map ∈ maps, map key = none := List.findSome?_eq_none_iff

theorem leftUnion_map {γ : Type} (f : κ → β → γ) (maps : List (κ → Option β)) (key : κ) :
    leftUnion (maps.map fun map key => (map key).map (f key)) key =
      (leftUnion maps key).map (f key) := by
  induction maps with
  | nil => rfl
  | cons map maps ih =>
      rw [List.map_cons, leftUnion_cons, leftUnion_cons, ih]
      cases map key <;> rfl

variable [DecidableEq κ]

def finalEntry (entries : List (κ × β)) (key : κ) : Option β := entries.reverse.lookup key

@[simp] theorem finalEntry_nil (key : κ) : finalEntry ([] : List (κ × β)) key = none := rfl

theorem finalEntry_cons (entry : κ × β) (entries : List (κ × β)) (key : κ) :
    finalEntry (entry :: entries) key =
      (finalEntry entries key).or (if key = entry.1 then some entry.2 else none) := by
  rw [finalEntry, List.reverse_cons, List.lookup_append, finalEntry, List.lookup_cons, List.lookup_nil]
  by_cases hkey : key = entry.1
  · simp [hkey]
  · simp [hkey, beq_false_of_ne hkey]

theorem finalEntry_append_singleton (entries : List (κ × β)) (key : κ) (b : β) :
    finalEntry (entries ++ [(key, b)]) = Function.update (finalEntry entries) key (some b) := by
  funext other
  rw [finalEntry, List.reverse_append, List.reverse_singleton, List.singleton_append,
    List.lookup_cons, Function.update_apply]
  by_cases hkey : other = key
  · simp [hkey]
  · simp [hkey, beq_false_of_ne hkey, finalEntry]

theorem finalEntry_map {γ : Type} (f : κ → β → γ) (entries : List (κ × β)) (key : κ) :
    finalEntry (entries.map fun entry => (entry.1, f entry.1 entry.2)) key =
      (finalEntry entries key).map (f key) := by
  induction entries with
  | nil => rfl
  | cons entry entries ih =>
      rw [List.map_cons, finalEntry_cons, finalEntry_cons, ih]
      by_cases hkey : key = entry.1
      · subst hkey
        cases finalEntry entries entry.1 <;> simp
      · cases finalEntry entries key <;> simp [hkey]

theorem mem_of_finalEntry {entries : List (κ × β)} {key : κ} {b : β}
    (h : finalEntry entries key = some b) : (key, b) ∈ entries := by
  obtain ⟨before, after, hentries, _⟩ := List.lookup_eq_some_iff.mp h
  exact List.mem_reverse.mp (hentries ▸ List.mem_append_right before List.mem_cons_self)

theorem exists_finalEntry {entries : List (κ × β)} {key : κ} (h : key ∈ entries.map Prod.fst) :
    ∃ b, finalEntry entries key = some b := by
  obtain ⟨entry, hentry, rfl⟩ := List.mem_map.mp h
  exact Option.isSome_iff_exists.mp
    (List.lookup_isSome_iff.mpr ⟨entry, List.mem_reverse.mpr hentry, beq_self_eq_true _⟩)

theorem finalEntry_eq_lookup {entries : List (κ × β)} (h : (entries.map Prod.fst).Nodup) (key : κ) :
    finalEntry entries key = entries.lookup key := by
  induction entries with
  | nil => rfl
  | cons entry entries ih =>
      obtain ⟨hfresh, hrest⟩ := List.nodup_cons.mp h
      rw [finalEntry_cons, ih hrest, List.lookup_cons]
      by_cases hkey : key = entry.1
      · subst hkey
        simp [lookup_eq_none_of_notMem hfresh]
      · simp [hkey, beq_false_of_ne hkey]

end Program
