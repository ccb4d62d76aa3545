import ServerSdk.Evaluate.Rollout

namespace ServerSdk

open Program

def identityText : Json → Option String
  | .text text => some text
  | .number n => some (formatFixed n)
  | _ => none

def wholeIdentity (user : User) (segmentKey salt : String) (seed : Option Int) (value : String) :
    String :=
  ".".intercalate (seed.elim [segmentKey, salt] (fun seed => [toString seed]) ++
    value :: user.secondary.toList)

theorem rawIdentity_eq_whole (user : User) (segmentKey salt : String) (seed : Option Int)
    (value : String) :
    rawIdentity user segmentKey salt seed value = wholeIdentity user segmentKey salt seed value := by
  simp only [rawIdentity, wholeIdentity]
  cases seed with
  | none => cases user.secondary <;> rfl
  | some seed => cases user.secondary <;> rfl

theorem length_le_utf8ByteSize (chars : List Char) :
    chars.length ≤ (String.ofList chars).utf8ByteSize := by
  induction chars with
  | nil => exact Nat.zero_le _
  | cons c chars ih =>
      have hpos := c.utf8Size_pos
      rw [String.ofList_cons, String.utf8ByteSize_append, String.utf8ByteSize_singleton,
        List.length_cons]
      omega

theorem utf8ByteSize_rawIdentity (user : User) (segmentKey salt : String) (seed : Option Int)
    (value : String) :
    value.utf8ByteSize < (rawIdentity user segmentKey salt seed value).utf8ByteSize := by
  have hdot : (".").utf8ByteSize = 1 := by decide
  simp only [rawIdentity]
  cases seed with
  | none =>
      cases user.secondary <;> simp only [String.utf8ByteSize_append, hdot] <;> omega
  | some seed =>
      cases user.secondary <;> simp only [String.utf8ByteSize_append, hdot] <;> omega

-- A number longer than the conversion buffer is cut, and then overflows the identity buffer.
theorem bucketableOf_whole {value : Json} {text bucketable : String} (user : User)
    (segmentKey salt : String) (seed : Option Int) (htext : identityText value = some text)
    (hbucketable : bucketableOf value = some bucketable) :
    bucketable = text ∨
      (256 ≤ (rawIdentity user segmentKey salt seed bucketable).utf8ByteSize ∧
        256 ≤ (rawIdentity user segmentKey salt seed text).utf8ByteSize) := by
  cases value with
  | text original =>
      cases htext
      cases hbucketable
      exact .inl rfl
  | number n =>
      have htext' : formatFixed n = text := Option.some.inj htext
      have hcut : String.ofList ((formatFixed n).toList.take 255) = bucketable :=
        Option.some.inj hbucketable
      subst htext' hcut
      by_cases hlong : (formatFixed n).toList.length ≤ 255
      · rw [List.take_of_length_le hlong, String.ofList_toList]
        exact .inl rfl
      · have hcut := length_le_utf8ByteSize ((formatFixed n).toList.take 255)
        have hwhole := length_le_utf8ByteSize (formatFixed n).toList
        rw [List.length_take] at hcut
        rw [String.ofList_toList] at hwhole
        have hraw := utf8ByteSize_rawIdentity user segmentKey salt seed
          (String.ofList ((formatFixed n).toList.take 255))
        have hraw' := utf8ByteSize_rawIdentity user segmentKey salt seed (formatFixed n)
        exact .inr ⟨by omega, by omega⟩
  | null => cases htext
  | bool b => cases htext
  | array items => cases htext
  | object fields => cases htext

section Bucket

variable [Externals] {user : User} {segmentKey attr salt : String} {seed : Option Int} {value : Json}
  {text : String}

theorem bucketUser_of_text (hvalue : valueOfAttribute user attr = .ok (some value))
    (htext : identityText value = some text) :
    bucketUser user segmentKey attr salt seed =
      if (wholeIdentity user segmentKey salt seed text).utf8ByteSize < 256 then do
        let bucket ← bucketOf (wholeIdentity user segmentKey salt seed text)
        pure (true, bucket)
      else .ok (false, 0) := by
  rw [← rawIdentity_eq_whole]
  cases hbucketable : bucketableOf value with
  | none => cases value <;> cases htext <;> cases hbucketable
  | some bucketable =>
      simp only [bucketUser, hvalue, hbucketable, Checked.ok_bind]
      rcases bucketableOf_whole user segmentKey salt seed htext hbucketable with rfl | hlong
      · rfl
      · rw [if_neg (by omega), if_neg (by omega)]
        rfl

theorem bucket_uses_whole_identity_iff {hash : String → Rat}
    (hhash : ∀ raw, bucketOf raw = .ok (hash raw))
    (hvalue : valueOfAttribute user attr = .ok (some value))
    (htext : identityText value = some text) :
    bucketUser user segmentKey attr salt seed =
        .ok (true, hash (wholeIdentity user segmentKey salt seed text)) ↔
      (wholeIdentity user segmentKey salt seed text).utf8ByteSize < 256 := by
  rw [bucketUser_of_text hvalue htext]
  constructor
  · intro hbucket
    by_contra hlong
    rw [if_neg hlong] at hbucket
    have hstatus : false = true := congrArg Prod.fst (Except.ok.inj hbucket)
    cases hstatus
  · intro hshort
    rw [if_pos hshort, hhash]
    rfl

end Bucket

def literalBucket (raw : String) : Rat := ((@bucketOf literalExternals raw).toOption).getD 0

theorem literal_bucketOf (raw : String) :
    @bucketOf literalExternals raw = .ok (literalBucket raw) := by
  have hreturns : Checked.Returns (@bucketOf literalExternals raw) := by
    simp only [bucketOf, literal_hexifyFits raw, beq_self_eq_true, Checked.check_true,
      Checked.ok_bind]
    exact Checked.returns_pure _
  obtain ⟨bucket, hbucket⟩ := hreturns
  rw [literalBucket, hbucket]
  rfl

theorem short_user_bucketed :
    @bucketUser literalExternals (userNew "u") "flag" "key" "salt" none =
      .ok (true, literalBucket "flag.salt.u") :=
  (@bucket_uses_whole_identity_iff literalExternals (userNew "u") "flag" "key" "salt" none
    (.text "u") "u" literalBucket literal_bucketOf rfl rfl).mpr (by decide)

def longUser : User := userNew (String.ofList (List.replicate 246 'a'))

theorem long_user_first_variation :
    @bucketUser literalExternals longUser "flag" "key" "salt" none = .ok (false, 0) ∧
      @variationIndexForUser literalExternals splitRollout.varOrRoll longUser "flag" "salt" =
        .ok (some (true, some (.number 0))) := by
  have hbucket : @bucketUser literalExternals longUser "flag" "key" "salt" none = .ok (false, 0) := by
    rw [@bucketUser_of_text literalExternals longUser "flag" "key" "salt" none (.text longUser.key)
      longUser.key rfl rfl]
    exact if_neg (by decide +kernel)
  refine ⟨hbucket, ?_⟩
  have hselect := @WeightedVariation.selectVariation_cons literalExternals (weightedEntry 0 30000 false)
    (splitRollout.weighted _ (List.mem_cons_self ..)) literal_exactArithmetic 0 0 true (none, false)
    [weightedEntry 1 70000 true]
  rw [if_pos (by decide +kernel)] at hselect
  rw [@Rollout.variationIndexForUser_eq literalExternals splitRollout longUser "flag" "salt"]
  exact Checked.bind_eq_ok.mpr ⟨(false, 0), hbucket, hselect⟩

end ServerSdk
