import ServerSdk.Platform

namespace ServerSdk

open Program

structure User where
  key : String
  anonymous : Bool
  secondary : Option String
  ip : Option String
  firstName : Option String
  lastName : Option String
  email : Option String
  name : Option String
  avatar : Option String
  country : Option String
  custom : Option Json
  privateAttributeNames : List String
  deriving Repr

def userNew (key : String) : User where
  key := key
  anonymous := false
  secondary := none
  ip := none
  firstName := none
  lastName := none
  email := none
  name := none
  avatar := none
  country := none
  custom := none
  privateAttributeNames := []

def textInItems (text : String) : List Json → Checked Bool
  | [] => pure false
  | item :: items =>
      match item.getText with
      | none => .error .nullText
      | some t => if t = text then pure true else textInItems text items

def textInArray (array : Json) (text : String) : Checked Bool :=
  textInItems text array.getIter

def isPrivateAttr (user : User) (key : String) (allAttributesPrivate : Bool)
    (globalPrivateAttributeNames : Json) : Checked Bool :=
  if allAttributesPrivate then pure true
  else do
    if ← textInArray globalPrivateAttributeNames key then pure true
    else textInArray (Json.ofTexts user.privateAttributeNames) key

structure Redaction where
  json : Json
  hidden : List String
  deriving Repr

def addString (user : User) (redact allAttributesPrivate : Bool)
    (globalPrivateAttributeNames : Json) (field : String) (value : Option String)
    (acc : Redaction) : Checked Redaction :=
  match value with
  | none => pure acc
  | some text => do
      let isPrivate ← (if redact then
        isPrivateAttr user field allAttributesPrivate globalPrivateAttributeNames else pure false)
      if isPrivate then pure { acc with hidden := acc.hidden ++ [field] }
      else pure { acc with json := acc.json.objectSetKey field (.text text) }

def redactCustom (user : User) (allAttributesPrivate : Bool)
    (globalPrivateAttributeNames : Json) : List (String × Json) → Redaction → Checked Redaction
  | [], acc => pure acc
  | (key, _) :: items, acc => do
      if ← isPrivateAttr user key allAttributesPrivate globalPrivateAttributeNames then
        redactCustom user allAttributesPrivate globalPrivateAttributeNames items
          ⟨acc.json.objectDeleteKey key, acc.hidden ++ [key]⟩
      else redactCustom user allAttributesPrivate globalPrivateAttributeNames items acc

def User.strings (user : User) : List (String × Option String) :=
  [("secondary", user.secondary), ("ip", user.ip), ("firstName", user.firstName),
    ("lastName", user.lastName), ("email", user.email), ("name", user.name),
    ("avatar", user.avatar), ("country", user.country)]

def addStrings (user : User) (redact allAttributesPrivate : Bool)
    (globalPrivateAttributeNames : Json) :
    List (String × Option String) → Redaction → Checked Redaction
  | [], acc => pure acc
  | (field, value) :: rest, acc => do
      let acc ← addString user redact allAttributesPrivate globalPrivateAttributeNames
        field value acc
      addStrings user redact allAttributesPrivate globalPrivateAttributeNames rest acc

def addCustom (user : User) (redact allAttributesPrivate : Bool)
    (globalPrivateAttributeNames : Json) (acc : Redaction) : Checked Redaction :=
  match user.custom with
  | none => pure acc
  | some custom => do
      let redacted ← (if redact then
        redactCustom user allAttributesPrivate globalPrivateAttributeNames custom.iterFields
          ⟨custom, acc.hidden⟩ else pure ⟨custom, acc.hidden⟩)
      pure ⟨acc.json.objectSetKey "custom" redacted.json, redacted.hidden⟩

def userToJSON (user : User) (redact allAttributesPrivate : Bool)
    (globalPrivateAttributeNames : Json) : Checked Json := do
  let json := (Json.object []).objectSetKey "key" (.text user.key)
  let json := if user.anonymous then json.objectSetKey "anonymous" (.bool true) else json
  let acc ← addStrings user redact allAttributesPrivate globalPrivateAttributeNames
    user.strings ⟨json, []⟩
  let acc ← addCustom user redact allAttributesPrivate globalPrivateAttributeNames acc
  pure (match acc.hidden with
    | [] => acc.json
    | hidden => acc.json.objectSetKey "privateAttrs" (.ofTexts hidden))

def builtinAttribute (user : User) (attr : String) : Option (Option Json) :=
  if attr = "key" then some (some (.text user.key))
  else if attr = "secondary" then some (user.secondary.map Json.text)
  else if attr = "ip" then some (user.ip.map Json.text)
  else if attr = "email" then some (user.email.map Json.text)
  else if attr = "firstName" then some (user.firstName.map Json.text)
  else if attr = "lastName" then some (user.lastName.map Json.text)
  else if attr = "avatar" then some (user.avatar.map Json.text)
  else if attr = "country" then some (user.country.map Json.text)
  else if attr = "name" then some (user.name.map Json.text)
  else if attr = "anonymous" then some (some (.bool user.anonymous))
  else none

def valueOfAttribute (user : User) (attr : String) : Checked (Option Json) :=
  match builtinAttribute user attr, user.custom with
  | some value, _ => pure value
  | none, none => pure none
  | none, some custom => do
      Checked.check (custom.getType == .object)
      pure (custom.objectLookup attr)

theorem textInArray_ofTexts (texts : List String) (text : String) :
    textInArray (.ofTexts texts) text = .ok (decide (text ∈ texts)) := by
  change textInItems text (texts.map Json.text) = _
  induction texts with
  | nil => rfl
  | cons t texts ih =>
      simp only [List.map_cons, textInItems, Json.getText_text, List.mem_cons, ih]
      by_cases ht : t = text
      · simp [ht, pure, Except.pure]
      · have ht' : text ≠ t := fun h => ht h.symm
        simp [ht, ht']

section Redact

variable (user : User) (redact all : Bool) (names : List String)

theorem isPrivateAttr_returns (key : String) :
    Checked.Returns (isPrivateAttr user key all (.ofTexts names)) := by
  simp only [isPrivateAttr, textInArray_ofTexts, Checked.ok_bind]
  split
  · exact Checked.returns_pure _
  · split
    · exact Checked.returns_pure _
    · exact Checked.returns_ok _

theorem addString_returns (field : String) (value : Option String) (acc : Redaction) :
    Checked.Returns (addString user redact all (.ofTexts names) field value acc) := by
  cases value with
  | none => exact Checked.returns_pure _
  | some text =>
      obtain ⟨hidden, hhidden⟩ := isPrivateAttr_returns user all names field
      have hguard : ∃ b, (if redact then isPrivateAttr user field all (.ofTexts names)
          else pure false) = .ok b := by
        cases redact with
        | false => exact ⟨false, rfl⟩
        | true => exact ⟨hidden, hhidden⟩
      obtain ⟨b, hb⟩ := hguard
      simp only [addString, hb, Checked.ok_bind]
      split
      · exact Checked.returns_pure _
      · exact Checked.returns_pure _

theorem addStrings_returns (fields : List (String × Option String)) (acc : Redaction) :
    Checked.Returns (addStrings user redact all (.ofTexts names) fields acc) := by
  induction fields generalizing acc with
  | nil => exact Checked.returns_pure _
  | cons f fields ih =>
      obtain ⟨acc', hacc'⟩ := addString_returns user redact all names f.1 f.2 acc
      exact Checked.returns_bind.mpr ⟨acc', hacc', ih acc'⟩

theorem redactCustom_returns (items : List (String × Json)) (acc : Redaction) :
    Checked.Returns (redactCustom user all (.ofTexts names) items acc) := by
  induction items generalizing acc with
  | nil => exact Checked.returns_pure _
  | cons item items ih =>
      obtain ⟨hidden, hhidden⟩ := isPrivateAttr_returns user all names item.1
      refine Checked.returns_bind.mpr ⟨hidden, hhidden, ?_⟩
      cases hidden with
      | false => exact ih _
      | true => exact ih _

theorem addCustom_returns (acc : Redaction) :
    Checked.Returns (addCustom user redact all (.ofTexts names) acc) := by
  simp only [addCustom]
  cases user.custom with
  | none => exact Checked.returns_pure _
  | some custom =>
      cases redact with
      | false => exact Checked.returns_pure _
      | true =>
          obtain ⟨r, hr⟩ := redactCustom_returns user all names custom.iterFields
            ⟨custom, acc.hidden⟩
          exact Checked.returns_bind.mpr ⟨r, hr, Checked.returns_pure _⟩

theorem userToJSON_returns : Checked.Returns (userToJSON user redact all (.ofTexts names)) := by
  simp only [userToJSON]
  generalize hbase : (if user.anonymous then _ else _ : Json) = base
  obtain ⟨acc, hacc⟩ := addStrings_returns user redact all names user.strings ⟨base, []⟩
  refine Checked.returns_bind.mpr ⟨acc, hacc, ?_⟩
  obtain ⟨acc', hacc'⟩ := addCustom_returns user redact all names acc
  exact Checked.returns_bind.mpr ⟨acc', hacc', Checked.returns_pure _⟩

end Redact

end ServerSdk
