import ServerSdk.Program.Keyed
import ServerSdk.User

namespace ServerSdk

open Program

theorem Json.eraseField_of_notMem {key : String} {fields : List (String × Json)}
    (h : key ∉ fields.map Prod.fst) : eraseField key fields = fields := by
  induction fields with
  | nil => rfl
  | cons f fields ih =>
      rw [List.map_cons, List.mem_cons, not_or] at h
      rw [eraseField, if_neg (Ne.symm h.1), ih h.2]

theorem Json.objectSetKey_fresh {key : String} {fields : List (String × Json)}
    (h : key ∉ fields.map Prod.fst) (item : Json) :
    (Json.object fields).objectSetKey key item = .object (fields ++ [(key, item)]) := by
  simp only [objectSetKey, objectDeleteKey, objectSetReference, eraseField_of_notMem h]

theorem Json.eraseField_append_of_notMem {key : String} {before : List (String × Json)}
    (h : key ∉ before.map Prod.fst) (fields : List (String × Json)) :
    eraseField key (before ++ fields) = before ++ eraseField key fields := by
  induction before with
  | nil => rfl
  | cons f before ih =>
      rw [List.map_cons, List.mem_cons, not_or] at h
      rw [List.cons_append, eraseField, if_neg (Ne.symm h.1), ih h.2, List.cons_append]

def Config.hides (config : Config) (user : User) (name : String) : Bool :=
  config.allAttributesPrivate || decide (name ∈ config.privateAttributeNames) ||
    decide (name ∈ user.privateAttributeNames)

def presentStrings (strings : List (String × Option String)) : List (String × Json) :=
  strings.filterMap fun field => field.2.map fun text => (field.1, .text text)

def User.builtins (user : User) : List (String × Json) := presentStrings user.strings

def User.customs (user : User) : List (String × Json) :=
  user.custom.elim [] Json.iterFields

def shown (hides : String → Bool) (attributes : List (String × Json)) : List (String × Json) :=
  attributes.filter fun entry => !hides entry.1

def hidden (hides : String → Bool) (attributes : List (String × Json)) : List String :=
  (attributes.map Prod.fst).filter hides

def shownCustom (hides : String → Bool) : Json → Json
  | .object fields => .object (shown hides fields)
  | custom => custom

def User.identity (user : User) : List (String × Json) :=
  ("key", .text user.key) :: if user.anonymous then [("anonymous", .bool true)] else []

def User.hiddenNames (user : User) (hides : String → Bool) : List String :=
  hidden hides user.builtins ++ hidden hides user.customs

def User.redactedFields (user : User) (hides : String → Bool) : List (String × Json) :=
  user.identity ++ shown hides user.builtins ++
    (user.custom.map fun custom => ("custom", shownCustom hides custom)).toList ++
    if user.hiddenNames hides = [] then []
    else [("privateAttrs", .ofTexts (user.hiddenNames hides))]

section Closed

variable (user : User) (config : Config)

theorem isPrivateAttr_eq_hides (name : String) :
    isPrivateAttr user name config.allAttributesPrivate config.privateNames =
      .ok (config.hides user name) := by
  simp only [isPrivateAttr, Config.privateNames, textInArray_ofTexts, Checked.ok_bind, Config.hides]
  cases config.allAttributesPrivate with
  | true => rfl
  | false =>
      by_cases hglobal : name ∈ config.privateAttributeNames
      · simp [hglobal, pure, Except.pure]
      · simp [hglobal]

theorem addString_redacted (field : String) (value : Option String) (fields : List (String × Json))
    (names : List String) (hfresh : field ∉ fields.map Prod.fst) :
    addString user true config.allAttributesPrivate config.privateNames field value
        ⟨.object fields, names⟩ =
      .ok ⟨.object (fields ++ shown (config.hides user)
          (value.map fun text => (field, Json.text text)).toList),
        names ++ hidden (config.hides user)
          (value.map fun text => (field, Json.text text)).toList⟩ := by
  cases value with
  | none => simp [addString, shown, hidden, pure, Except.pure]
  | some text =>
      simp only [addString, if_true, isPrivateAttr_eq_hides, Checked.ok_bind]
      cases hhides : config.hides user field with
      | true => simp [shown, hidden, hhides, pure, Except.pure]
      | false => simp [shown, hidden, hhides, pure, Except.pure, Json.objectSetKey_fresh hfresh]

theorem keys_presentStrings (strings : List (String × Option String)) :
    ((presentStrings strings).map Prod.fst).Sublist (strings.map Prod.fst) := by
  induction strings with
  | nil => exact .slnil
  | cons field strings ih =>
      obtain ⟨name, value⟩ := field
      cases value with
      | none => exact ih.cons name
      | some text => exact ih.cons_cons name

theorem shown_append (hides : String → Bool) (before after : List (String × Json)) :
    shown hides (before ++ after) = shown hides before ++ shown hides after :=
  List.filter_append ..

theorem hidden_append (hides : String → Bool) (before after : List (String × Json)) :
    hidden hides (before ++ after) = hidden hides before ++ hidden hides after := by
  simp only [hidden, List.map_append, List.filter_append]

theorem presentStrings_cons (field : String × Option String)
    (strings : List (String × Option String)) :
    presentStrings (field :: strings) =
      (field.2.map fun text => (field.1, Json.text text)).toList ++ presentStrings strings := by
  obtain ⟨name, value⟩ := field
  cases value with
  | none => rfl
  | some text => rfl

theorem keys_shown (hides : String → Bool) (attributes : List (String × Json)) :
    ((shown hides attributes).map Prod.fst).Sublist (attributes.map Prod.fst) :=
  List.filter_sublist.map _

theorem addStrings_redacted (strings : List (String × Option String))
    (fields : List (String × Json)) (names : List String)
    (hnodup : (strings.map Prod.fst).Nodup)
    (hfresh : ∀ name ∈ strings.map Prod.fst, name ∉ fields.map Prod.fst) :
    addStrings user true config.allAttributesPrivate config.privateNames strings
        ⟨.object fields, names⟩ =
      .ok ⟨.object (fields ++ shown (config.hides user) (presentStrings strings)),
        names ++ hidden (config.hides user) (presentStrings strings)⟩ := by
  induction strings generalizing fields names with
  | nil => simp [addStrings, presentStrings, shown, hidden, pure, Except.pure]
  | cons field strings ih =>
      obtain ⟨name, value⟩ := field
      rw [List.map_cons, List.nodup_cons] at hnodup
      rw [addStrings, addString_redacted user config name value fields names
        (hfresh name (by simp)), Checked.ok_bind, ih _ _ hnodup.2 ?_, presentStrings_cons,
        shown_append, hidden_append, List.append_assoc, List.append_assoc]
      intro other hother
      have hne : other ≠ name := fun heq => hnodup.1 (heq ▸ hother)
      have hfields := hfresh other (by simp [List.mem_cons_of_mem _ hother])
      cases value with
      | none => simpa [shown] using hfields
      | some text =>
          rw [List.map_append, List.mem_append, not_or]
          refine ⟨hfields, fun hmem => ?_⟩
          have hkey := (keys_shown (config.hides user) _).subset hmem
          exact hne (by simpa using hkey)

theorem redactCustom_redacted (items kept : List (String × Json)) (names : List String)
    (hkept : ∀ entry ∈ kept, config.hides user entry.1 = false) :
    redactCustom user config.allAttributesPrivate config.privateNames items
        ⟨.object (kept ++ items), names⟩ =
      .ok ⟨.object (kept ++ shown (config.hides user) items),
        names ++ hidden (config.hides user) items⟩ := by
  induction items generalizing kept names with
  | nil => simp [redactCustom, shown, hidden, pure, Except.pure]
  | cons item items ih =>
      obtain ⟨name, value⟩ := item
      rw [redactCustom, isPrivateAttr_eq_hides, Checked.ok_bind]
      cases hhides : config.hides user name with
      | true =>
          have hfresh : name ∉ kept.map Prod.fst := by
            intro hmem
            obtain ⟨entry, hentry, rfl⟩ := List.mem_map.mp hmem
            rw [hkept entry hentry] at hhides
            cases hhides
          simp only [if_true, Json.objectDeleteKey, Json.eraseField_append_of_notMem hfresh,
            Json.eraseField, ih kept _ hkept]
          simp [shown, hidden, hhides]
      | false =>
          have hkept' : ∀ entry ∈ kept ++ [(name, value)], config.hides user entry.1 = false := by
            intro entry hentry
            rcases List.mem_append.mp hentry with hentry | hentry
            · exact hkept entry hentry
            · rw [List.mem_singleton.mp hentry, hhides]
          have happend : kept ++ (name, value) :: items = (kept ++ [(name, value)]) ++ items := by
            simp
          rw [if_neg (by simp), happend, ih _ _ hkept']
          simp [shown, hidden, hhides]

theorem addCustom_redacted (fields : List (String × Json)) (names : List String)
    (hfresh : "custom" ∉ fields.map Prod.fst) :
    addCustom user true config.allAttributesPrivate config.privateNames ⟨.object fields, names⟩ =
      .ok ⟨.object (fields ++ (user.custom.map fun custom =>
          ("custom", shownCustom (config.hides user) custom)).toList),
        names ++ hidden (config.hides user) user.customs⟩ := by
  simp only [addCustom, User.customs]
  cases user.custom with
  | none => simp [hidden, pure, Except.pure]
  | some custom =>
      simp only [if_true, Option.elim_some, Option.map_some, Option.toList_some]
      cases custom with
      | object items =>
          have hredact := redactCustom_redacted user config items [] names (by simp)
          simp only [List.nil_append] at hredact
          simp only [Json.iterFields, hredact, Checked.ok_bind, Json.objectSetKey_fresh hfresh,
            shownCustom]
          rfl
      | null | bool _ | number _ | text _ | array _ =>
          simp [Json.iterFields, redactCustom, hidden, shownCustom, pure, Except.pure, bind,
            Except.bind, Json.objectSetKey_fresh hfresh]

def attributeNames : List String :=
  ["secondary", "ip", "firstName", "lastName", "email", "name", "avatar", "country"]

theorem keys_identity : (user.identity.map Prod.fst).Sublist ["key", "anonymous"] := by
  simp only [User.identity]
  cases user.anonymous with
  | false => exact .cons_cons _ (.cons _ .slnil)
  | true => exact .refl _

theorem keys_builtins : (user.builtins.map Prod.fst).Sublist attributeNames :=
  keys_presentStrings user.strings

theorem keys_opening (hides : String → Bool) :
    ((user.identity ++ shown hides user.builtins).map Prod.fst).Sublist
      (["key", "anonymous"] ++ attributeNames) := by
  rw [List.map_append]
  exact (keys_identity user).append ((keys_shown hides user.builtins).trans (keys_builtins user))

theorem keys_custom (hides : String → Bool) :
    ((user.custom.map fun custom => ("custom", shownCustom hides custom)).toList.map
      Prod.fst).Sublist ["custom"] := by
  cases user.custom with
  | none => exact .cons _ .slnil
  | some custom => exact .refl _

theorem keys_private (names : List String) :
    ((if names = [] then [] else [("privateAttrs", Json.ofTexts names)]).map Prod.fst).Sublist
      ["privateAttrs"] := by
  split
  · exact .cons _ .slnil
  · exact .refl _

theorem identity_json :
    (if user.anonymous then ((Json.object []).objectSetKey "key" (.text user.key)).objectSetKey
        "anonymous" (.bool true)
      else (Json.object []).objectSetKey "key" (.text user.key)) = .object user.identity := by
  simp only [User.identity]
  cases user.anonymous with
  | false => rfl
  | true => rfl

theorem userToJSON_redacted :
    userToJSON user true config.allAttributesPrivate config.privateNames =
      .ok (.object (user.redactedFields (config.hides user))) := by
  have hidentity : ∀ name ∈ attributeNames, name ∉ user.identity.map Prod.fst := by
    have hdisjoint : ∀ name ∈ attributeNames, name ∉ ["key", "anonymous"] := by decide
    exact fun name hname hmem => hdisjoint name hname ((keys_identity user).subset hmem)
  have hcustom : "custom" ∉ (user.identity ++ shown (config.hides user) user.builtins).map
      Prod.fst := by
    have hnot : "custom" ∉ ["key", "anonymous"] ++ attributeNames := by decide
    exact fun hmem => hnot ((keys_opening user _).subset hmem)
  have hprivate : "privateAttrs" ∉ (user.identity ++ shown (config.hides user) user.builtins ++
      (user.custom.map fun custom =>
        ("custom", shownCustom (config.hides user) custom)).toList).map Prod.fst := by
    rw [List.map_append, List.mem_append, not_or]
    have hopening : "privateAttrs" ∉ ["key", "anonymous"] ++ attributeNames := by decide
    have hname : "privateAttrs" ∉ ["custom"] := by decide
    exact ⟨fun hmem => hopening ((keys_opening user _).subset hmem),
      fun hmem => hname ((keys_custom user _).subset hmem)⟩
  have hnodup : (user.strings.map Prod.fst).Nodup := by
    change attributeNames.Nodup
    decide
  rw [userToJSON, identity_json]
  have hstrings := addStrings_redacted user config user.strings user.identity [] hnodup hidentity
  rw [← User.builtins, List.nil_append] at hstrings
  rw [hstrings, Checked.ok_bind, addCustom_redacted user config _ _ hcustom, Checked.ok_bind]
  have hhidden : hidden (config.hides user) user.builtins ++ hidden (config.hides user) user.customs =
      user.hiddenNames (config.hides user) := rfl
  rw [hhidden, User.redactedFields]
  cases hnames : user.hiddenNames (config.hides user) with
  | nil =>
      simp only [if_true, List.append_nil]
      rfl
  | cons name names =>
      simp only [reduceCtorEq, if_false]
      rw [Json.objectSetKey_fresh hprivate]
      rfl

end Closed

def Json.Aligned (R : String → Json → Json → Prop) (a b : Json) : Prop :=
  ∃ fields fields', a = .object fields ∧ b = .object fields' ∧
    List.Forall₂ (fun field field' => field.1 = field'.1 ∧ R field.1 field.2 field'.2) fields fields'

inductive Json.Shuffled : Json → Json → Prop
  | object {fields fields' : List (String × Json)} (h : fields.Perm fields') :
      Shuffled (.object fields) (.object fields')
  | array {items items' : List Json} (h : items.Perm items') :
      Shuffled (.array items) (.array items')

def SameUserMember (key : String) (a b : Json) : Prop :=
  a = b ∨ (key = "custom" ∨ key = "privateAttrs") ∧ a.Shuffled b

def SameUserData : Json → Json → Prop := Json.Aligned SameUserMember

inductive SameCustom (hides : String → Bool) : Option Json → Option Json → Prop
  | same (custom : Option Json) : SameCustom hides custom custom
  | objects {fields fields' : List (String × Json)}
      (names : (fields.map Prod.fst).Perm (fields'.map Prod.fst))
      (values : (shown hides fields).Perm (shown hides fields')) :
      SameCustom hides (some (.object fields)) (some (.object fields'))

structure SameIdentity (config : Config) (user user' : User) : Prop where
  key : user.key = user'.key
  anonymous : user.anonymous = user'.anonymous
  privateAttributeNames : user.privateAttributeNames = user'.privateAttributeNames
  builtinNames : ∀ name, name ∈ user.builtins.map Prod.fst ↔ name ∈ user'.builtins.map Prod.fst
  builtinValues : ∀ entry, config.hides user entry.1 = false →
    (entry ∈ user.builtins ↔ entry ∈ user'.builtins)

structure SameAttributes (config : Config) (user user' : User) : Prop
    extends SameIdentity config user user' where
  customNames : ∀ name, name ∈ user.customs.map Prod.fst ↔ name ∈ user'.customs.map Prod.fst
  customValues : ∀ entry, config.hides user entry.1 = false →
    (entry ∈ user.customs ↔ entry ∈ user'.customs)

structure SameVisible (config : Config) (user user' : User) : Prop
    extends SameIdentity config user user' where
  custom : SameCustom (config.hides user) user.custom user'.custom

structure SameOrder (config : Config) (user user' : User) : Prop where
  names : user.customs.map Prod.fst = user'.customs.map Prod.fst
  values : shown (config.hides user) user.customs = shown (config.hides user) user'.customs

section TwoRuns

variable {config : Config} {user user' : User}

theorem SameIdentity.hides (h : SameIdentity config user user') :
    config.hides user' = config.hides user := by
  funext name
  simp only [Config.hides, h.privateAttributeNames]

theorem SameIdentity.identity (h : SameIdentity config user user') :
    user.identity = user'.identity := by
  simp only [User.identity, h.key, h.anonymous]

theorem attributeNames_nodup : attributeNames.Nodup := by decide

theorem SameIdentity.names (h : SameIdentity config user user') :
    user.builtins.map Prod.fst = user'.builtins.map Prod.fst := by
  refine @eq_of_sublist_keys _ _ id _ _ _ attributeNames_nodup ?_ ?_ h.builtinNames
  · rw [List.map_id]
    exact keys_builtins user
  · rw [List.map_id]
    exact keys_builtins user'

theorem SameIdentity.shown_builtins (h : SameIdentity config user user') :
    shown (config.hides user) user.builtins = shown (config.hides user) user'.builtins := by
  refine eq_of_sublist_keys attributeNames_nodup ((keys_shown _ _).trans (keys_builtins user))
    ((keys_shown _ _).trans (keys_builtins user')) ?_
  intro entry
  simp only [shown, List.mem_filter, Bool.not_eq_true']
  exact and_congr_left fun hshown => h.builtinValues entry hshown

theorem SameIdentity.hidden_builtins (h : SameIdentity config user user') :
    hidden (config.hides user) user.builtins = hidden (config.hides user) user'.builtins := by
  rw [hidden, h.names, hidden]

theorem SameCustom.shown {hides : String → Bool} {custom custom' : Option Json}
    (h : SameCustom hides custom custom') :
    List.Forall₂ (fun field field' => field.1 = field'.1 ∧
        SameUserMember field.1 field.2 field'.2)
      (custom.map fun custom => ("custom", shownCustom hides custom)).toList
      (custom'.map fun custom => ("custom", shownCustom hides custom)).toList := by
  cases h with
  | same custom => exact List.forall₂_same.mpr fun field _ => ⟨rfl, .inl rfl⟩
  | objects names values => exact .cons ⟨rfl, .inr ⟨.inl rfl, .object values⟩⟩ .nil

theorem SameCustom.hidden {hides : String → Bool} {custom custom' : Option Json}
    (h : SameCustom hides custom custom') :
    (hidden hides (custom.elim [] Json.iterFields)).Perm
      (hidden hides (custom'.elim [] Json.iterFields)) := by
  cases h with
  | same custom => exact .refl _
  | objects names values => exact names.filter hides

theorem SameVisible.hiddenNames (h : SameVisible config user user') :
    (user.hiddenNames (config.hides user)).Perm (user'.hiddenNames (config.hides user)) := by
  rw [User.hiddenNames, User.hiddenNames, h.hidden_builtins]
  exact h.custom.hidden.append_left _

theorem sameMember_privateAttrs {names names' : List String} (h : names.Perm names') :
    List.Forall₂ (fun field field' => field.1 = field'.1 ∧
        SameUserMember field.1 field.2 field'.2)
      (if names = [] then [] else [("privateAttrs", Json.ofTexts names)])
      (if names' = [] then [] else [("privateAttrs", Json.ofTexts names')]) := by
  cases names with
  | nil =>
      obtain rfl := h.nil_eq
      exact .nil
  | cons name names =>
      cases names' with
      | nil => cases h.eq_nil
      | cons name' names' => exact .cons ⟨rfl, .inr ⟨.inr rfl, .array (h.map _)⟩⟩ .nil

theorem SameVisible.userData (h : SameVisible config user user') :
    SameUserData (.object (user.redactedFields (config.hides user)))
      (.object (user'.redactedFields (config.hides user'))) := by
  refine ⟨_, _, rfl, rfl, ?_⟩
  rw [h.hides, User.redactedFields, User.redactedFields, h.identity, h.shown_builtins]
  refine List.rel_append (List.rel_append ?_ h.custom.shown)
    (sameMember_privateAttrs h.hiddenNames)
  exact List.forall₂_same.mpr fun field _ => ⟨rfl, .inl rfl⟩

theorem SameVisible.userData_eq (h : SameVisible config user user')
    (horder : SameOrder config user user') :
    user.redactedFields (config.hides user) = user'.redactedFields (config.hides user') := by
  have hnames : user.hiddenNames (config.hides user) = user'.hiddenNames (config.hides user) := by
    have hcustoms : hidden (config.hides user) user.customs =
        hidden (config.hides user) user'.customs := congrArg (List.filter _) horder.names
    rw [User.hiddenNames, User.hiddenNames, h.hidden_builtins, hcustoms]
  have hcustom : (user.custom.map fun custom =>
        ("custom", shownCustom (config.hides user) custom)) =
      user'.custom.map fun custom => ("custom", shownCustom (config.hides user) custom) := by
    have hvalues := horder.values
    simp only [User.customs] at hvalues
    have hsame := h.custom
    generalize user.custom = custom at hsame hvalues
    generalize user'.custom = custom' at hsame hvalues
    cases hsame with
    | same custom => rfl
    | objects names values =>
        exact congrArg (fun fields => some ("custom", Json.object fields)) hvalues
  rw [h.hides, User.redactedFields, User.redactedFields, h.identity, h.shown_builtins, hnames,
    hcustom]

end TwoRuns

def Json.privateAttrs (json : Json) : List Json :=
  (json.objectLookup "privateAttrs").elim [] Json.getIter

def Json.customMembers (json : Json) : List (String × Json) :=
  (json.objectLookup "custom").elim [] Json.iterFields

structure Redacted (config : Config) (user : User) (json : Json) : Prop where
  named_iff : ∀ name, Json.text name ∈ json.privateAttrs ↔
    name ∈ (user.builtins ++ user.customs).map Prod.fst ∧ config.hides user name = true
  builtins : ∀ entry ∈ user.builtins,
    json.objectLookup entry.1 = some entry.2 ∧ Json.text entry.1 ∉ json.privateAttrs ∨
      json.objectLookup entry.1 = none ∧ Json.text entry.1 ∈ json.privateAttrs
  customs : ∀ entry ∈ user.customs,
    entry ∈ json.customMembers ∧ Json.text entry.1 ∉ json.privateAttrs ∨
      entry.1 ∉ json.customMembers.map Prod.fst ∧ Json.text entry.1 ∈ json.privateAttrs

section OneRun

variable (user : User) (hides : String → Bool)

theorem lookup_eq_none_of_notMem {key : String} {fields : List (String × Json)}
    (h : key ∉ fields.map Prod.fst) : fields.lookup key = none := by
  rw [List.lookup_eq_none_iff]
  intro field hfield
  rw [bne_iff_ne]
  exact fun heq => h (heq ▸ List.mem_map_of_mem hfield)

theorem lookup_redactedFields (name : String) :
    (user.redactedFields hides).lookup name =
      (((user.identity.lookup name).or ((shown hides user.builtins).lookup name)).or
        ((user.custom.map fun custom => ("custom", shownCustom hides custom)).toList.lookup
          name)).or
        ((if user.hiddenNames hides = [] then []
          else [("privateAttrs", Json.ofTexts (user.hiddenNames hides))]).lookup name) := by
  rw [User.redactedFields, List.lookup_append, List.lookup_append, List.lookup_append]

theorem lookup_builtin {name : String} (h : name ∈ attributeNames) :
    (user.redactedFields hides).lookup name = (shown hides user.builtins).lookup name := by
  have hidentity : name ∉ ["key", "anonymous"] := by
    have hall : ∀ name ∈ attributeNames, name ∉ ["key", "anonymous"] := by decide
    exact hall name h
  have hothers : name ∉ ["custom"] ∧ name ∉ ["privateAttrs"] := by
    have hall : ∀ name ∈ attributeNames, name ∉ ["custom"] ∧ name ∉ ["privateAttrs"] := by decide
    exact hall name h
  rw [lookup_redactedFields,
    lookup_eq_none_of_notMem fun hmem => hidentity ((keys_identity user).subset hmem),
    lookup_eq_none_of_notMem fun hmem => hothers.1 ((keys_custom user hides).subset hmem),
    lookup_eq_none_of_notMem fun hmem => hothers.2 ((keys_private _).subset hmem)]
  simp

theorem lookup_custom :
    (user.redactedFields hides).lookup "custom" = user.custom.map (shownCustom hides) := by
  have hopening : "custom" ∉ ["key", "anonymous"] ∧ "custom" ∉ attributeNames := by decide
  have hprivate : "custom" ∉ ["privateAttrs"] := by decide
  rw [lookup_redactedFields,
    lookup_eq_none_of_notMem fun hmem => hopening.1 ((keys_identity user).subset hmem),
    lookup_eq_none_of_notMem fun hmem => hopening.2
      (((keys_shown hides _).trans (keys_builtins user)).subset hmem),
    lookup_eq_none_of_notMem fun hmem => hprivate ((keys_private _).subset hmem)]
  cases user.custom with
  | none => rfl
  | some custom => rfl

theorem lookup_privateAttrs :
    (user.redactedFields hides).lookup "privateAttrs" =
      if user.hiddenNames hides = [] then none else some (.ofTexts (user.hiddenNames hides)) := by
  have hopening : "privateAttrs" ∉ ["key", "anonymous"] ∧ "privateAttrs" ∉ attributeNames := by
    decide
  have hcustom : "privateAttrs" ∉ ["custom"] := by decide
  rw [lookup_redactedFields,
    lookup_eq_none_of_notMem fun hmem => hopening.1 ((keys_identity user).subset hmem),
    lookup_eq_none_of_notMem fun hmem => hopening.2
      (((keys_shown hides _).trans (keys_builtins user)).subset hmem),
    lookup_eq_none_of_notMem fun hmem => hcustom ((keys_custom user hides).subset hmem)]
  split
  · rfl
  · rfl

theorem privateAttrs_redacted :
    (Json.object (user.redactedFields hides)).privateAttrs =
      (user.hiddenNames hides).map Json.text := by
  simp only [Json.privateAttrs, Json.objectLookup, lookup_privateAttrs]
  split
  · simp [*]
  · rfl

theorem customMembers_redacted :
    (Json.object (user.redactedFields hides)).customMembers = shown hides user.customs := by
  simp only [Json.customMembers, Json.objectLookup, lookup_custom, User.customs]
  cases user.custom with
  | none => rfl
  | some custom => cases custom <;> rfl

theorem mem_hiddenNames {name : String} : name ∈ user.hiddenNames hides ↔
    name ∈ (user.builtins ++ user.customs).map Prod.fst ∧ hides name = true := by
  rw [User.hiddenNames, ← hidden_append, hidden, List.mem_filter]

theorem builtins_nodup : (user.builtins.map Prod.fst).Nodup :=
  attributeNames_nodup.sublist (keys_builtins user)

theorem notMem_shown {name : String} (h : hides name = true)
    (attributes : List (String × Json)) : name ∉ (shown hides attributes).map Prod.fst := by
  intro hmem
  obtain ⟨entry, hentry, rfl⟩ := List.mem_map.mp hmem
  have hshown := (List.mem_filter.mp hentry).2
  simp [h] at hshown

theorem redacted_redactedFields (config : Config) :
    Redacted config user (.object (user.redactedFields (config.hides user))) := by
  have hnamed : ∀ name, Json.text name ∈
      (Json.object (user.redactedFields (config.hides user))).privateAttrs ↔
        name ∈ (user.builtins ++ user.customs).map Prod.fst ∧ config.hides user name = true := by
    intro name
    rw [privateAttrs_redacted, ← mem_hiddenNames]
    simp
  constructor
  · exact hnamed
  · intro entry hentry
    have hname : entry.1 ∈ attributeNames :=
      (keys_builtins user).subset (List.mem_map_of_mem hentry)
    have hpresent : entry.1 ∈ (user.builtins ++ user.customs).map Prod.fst :=
      List.mem_map_of_mem (List.mem_append_left _ hentry)
    rw [Json.objectLookup, hnamed, lookup_builtin user _ hname]
    cases hhides : config.hides user entry.1 with
    | false =>
        have hshown : entry ∈ shown (config.hides user) user.builtins :=
          List.mem_filter.mpr ⟨hentry, by simp [hhides]⟩
        have hkeys := (builtins_nodup user).sublist (keys_shown (config.hides user) user.builtins)
        exact .inl ⟨(Json.mem_iff_lookup hkeys).mp hshown, by simp⟩
    | true =>
        exact .inr ⟨lookup_eq_none_of_notMem (notMem_shown _ hhides _), hpresent, rfl⟩
  · intro entry hentry
    have hpresent : entry.1 ∈ (user.builtins ++ user.customs).map Prod.fst :=
      List.mem_map_of_mem (List.mem_append_right _ hentry)
    rw [customMembers_redacted, hnamed]
    cases hhides : config.hides user entry.1 with
    | false => exact .inl ⟨List.mem_filter.mpr ⟨hentry, by simp [hhides]⟩, by simp⟩
    | true => exact .inr ⟨notMem_shown _ hhides _, hpresent, rfl⟩

end OneRun

end ServerSdk
