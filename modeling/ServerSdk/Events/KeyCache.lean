import ServerSdk.Events.Decision
import ServerSdk.Program.Recency
import ServerSdk.Redaction

namespace ServerSdk

open Program

structure Lru.WellFormed (lru : Lru) : Prop where
  elements : lru.elements = lru.list.length
  fits : lru.list.length ≤ lru.capacity
  hash : lru.hash.Perm lru.list

theorem Lru.wellFormed_init (capacity : ℕ) : (Lru.init capacity).WellFormed :=
  ⟨rfl, Nat.zero_le _, .nil⟩

theorem Lru.wellFormed_clear (lru : Lru) : lru.clear.WellFormed :=
  ⟨rfl, Nat.zero_le _, .nil⟩

structure Lru.Inserted (lru : Lru) (key : String) (status : LruStatus) (next : Lru) : Prop where
  status : status = .new ↔ key ∉ lru.list
  capacity : next.capacity = lru.capacity
  list : next.list = (key :: lru.list.erase key).take lru.capacity
  wellFormed : next.WellFormed

theorem Lru.WellFormed.insert_new {lru : Lru} (h : lru.WellFormed) (hcapacity : 0 < lru.capacity)
    {key : String} (hkey : key ∉ lru.list) :
    ({ lru.makeRoom with
        list := key :: lru.makeRoom.list, hash := lru.makeRoom.hash ++ [key] } : Lru).WellFormed ∧
      lru.makeRoom.capacity = lru.capacity ∧
      key :: lru.makeRoom.list = (key :: lru.list.erase key).take lru.capacity := by
  obtain ⟨elements, capacity, list, hash⟩ := lru
  obtain ⟨helements, hfits, hhash⟩ := h
  simp only at helements hfits hhash hcapacity hkey
  rw [List.erase_of_not_mem hkey, Lru.makeRoom]
  simp only
  split_ifs with hfull
  · cases hlast : list.getLast? with
    | none =>
        rw [List.getLast?_eq_none_iff.mp hlast, List.length_nil] at helements
        omega
    | some last =>
        obtain ⟨kept, rfl⟩ := List.getLast?_eq_some_iff.mp hlast
        rw [List.length_append, List.length_singleton] at helements hfits
        have hkept : (kept ++ [last]).dropLast = kept := List.dropLast_concat
        have htake : (key :: (kept ++ [last])).take capacity = key :: kept := by
          have hcapacity : capacity = kept.length + 1 := by omega
          rw [hcapacity, List.take_succ_cons, List.take_left]
        have hperm : (hash.erase last).Perm kept := by
          have hrotate : (kept ++ [last]).Perm (last :: kept) := List.perm_append_singleton _ _
          have herase := (hhash.trans hrotate).erase last
          rwa [List.erase_cons_head] at herase
        rw [htake]
        rw [hkept]
        refine ⟨⟨?_, ?_, ?_⟩, rfl, rfl⟩
        · simp only [List.length_cons]
          omega
        · simp only [List.length_cons]
          omega
        · exact (List.perm_append_singleton _ _).trans (hperm.cons key)
  · refine ⟨⟨?_, ?_, ?_⟩, rfl, ?_⟩
    · simp only [List.length_cons]
      omega
    · simp only [List.length_cons]
      omega
    · exact (List.perm_append_singleton _ _).trans (hhash.cons key)
    · rw [List.take_of_length_le]
      rw [List.length_cons]
      omega

theorem Lru.WellFormed.insert_existed {lru : Lru} (h : lru.WellFormed) {key : String}
    (hkey : key ∈ lru.list) :
    ({ lru with list := key :: lru.list.erase key } : Lru).WellFormed ∧
      key :: lru.list.erase key = (key :: lru.list.erase key).take lru.capacity := by
  have hperm : lru.list.Perm (key :: lru.list.erase key) := List.perm_cons_erase hkey
  have hlength := hperm.length_eq
  refine ⟨⟨h.elements.trans hlength, hlength ▸ h.fits, h.hash.trans hperm⟩, ?_⟩
  rw [List.take_of_length_le (hlength ▸ h.fits)]

theorem Lru.WellFormed.insert {lru : Lru} (h : lru.WellFormed) (hcapacity : 0 < lru.capacity)
    (key : String) : lru.Inserted key (lru.insert key).1 (lru.insert key).2 := by
  rw [Lru.insert, if_neg (by omega)]
  by_cases hkey : key ∈ lru.list
  · obtain ⟨hnext, hlist⟩ := h.insert_existed hkey
    rw [if_pos (h.hash.mem_iff.mpr hkey)]
    exact ⟨by simp [hkey], rfl, hlist, hnext⟩
  · obtain ⟨hnext, hroom, hlist⟩ := h.insert_new hcapacity hkey
    rw [if_neg (h.hash.mem_iff.not.mpr hkey)]
    exact ⟨by simp [hkey], hroom, hlist, hnext⟩

structure KeyLedger where
  uses : List String
  clearedAt : Rat

namespace KeyLedger

def use (key : String) (ledger : KeyLedger) : KeyLedger :=
  { ledger with uses := key :: ledger.uses }

def tick {σ : Type} (w : World σ) (interval : ℕ) (s : σ) (ledger : KeyLedger) : KeyLedger :=
  let now := w.monotonicMilliseconds s
  if now.1 - ledger.clearedAt > interval then ⟨[], (w.monotonicMilliseconds now.2).1⟩ else ledger

end KeyLedger

structure Follows (capacity : ℕ) (ledger : KeyLedger) (processor : EventProcessor) : Prop where
  wellFormed : processor.userKeys.WellFormed
  size : processor.userKeys.capacity = capacity
  list : processor.userKeys.list = recent capacity ledger.uses
  clearedAt : processor.lastUserKeyFlush = ledger.clearedAt

theorem follows_create (config : Config) (now : Rat) :
    Follows config.userKeysCapacity ⟨[], now⟩ (EventProcessor.create config now) :=
  ⟨Lru.wellFormed_init _, rfl, (List.take_nil).symm, rfl⟩

theorem Follows.use {capacity : ℕ} {ledger : KeyLedger} {processor : EventProcessor}
    (h : Follows capacity ledger processor) (hcapacity : 0 < capacity) (key : String) :
    ((processor.userKeys.insert key).1 = .new ↔ key ∉ recent capacity ledger.uses) ∧
      Follows capacity (ledger.use key)
        { processor with userKeys := (processor.userKeys.insert key).2 } := by
  obtain ⟨hwellFormed, hsize, hlist, hcleared⟩ := h
  have hinserted := hwellFormed.insert (hsize ▸ hcapacity) key
  refine ⟨by rw [hinserted.status, hlist], hinserted.wellFormed, hinserted.capacity.trans hsize, ?_,
    hcleared⟩
  rw [hinserted.list, hsize, hlist, KeyLedger.use, recent_cons]

def isIndex (event : Json) : Bool := event.objectLookup "kind" = some (.text "index")

def indexEvents (events : List Json) : List Json := events.filter isIndex

structure IndexFor (key : String) (event : Json) : Prop where
  kind : event.objectLookup "kind" = some (.text "index")
  user : ∃ userData, event.objectLookup "user" = some userData ∧
    userData.objectLookup "key" = some (.text key)

theorem newIndexEvent_indexFor {config : Config} {user : User} {timestamp : Rat} {event : Json}
    (h : newIndexEvent config user timestamp = .ok event) : IndexFor user.key event := by
  have hkind := (newIndexEvent_queued h).1
  obtain ⟨userData, hdata, hpure⟩ := Checked.bind_eq_ok.mp h
  cases hpure
  rw [userToJSON_redacted] at hdata
  cases hdata
  have hbase : (newBaseEvent "index" timestamp).Unique := (Json.unique_empty.setKey _ _).setKey _ _
  exact ⟨hkind, _, hbase.lookup_setKey "user" _, rfl⟩

section IndexEvent

variable {σ : Type} {capacity : ℕ} {ledger : KeyLedger}

theorem flushUserKeys_follows {processor : EventProcessor} (w : World σ) (config : Config)
    (h : Follows capacity ledger processor) (s : σ) :
    Run.Ensures (flushUserKeys w config processor) s fun flushed _ =>
      Follows capacity (ledger.tick w config.userKeysFlushInterval s) flushed := by
  rw [flushUserKeys, Run.ensures_ask_bind, h.clearedAt]
  simp only [KeyLedger.tick]
  split_ifs
  · rw [Run.ensures_ask_bind]
    exact Run.ensures_pure ⟨Lru.wellFormed_clear _, h.size, (List.take_nil).symm, rfl⟩
  · exact Run.ensures_pure h

structure MakesIndex (capacity : ℕ) (ledger : KeyLedger) (key : String) (indexEvent : Option Json) :
    Prop where
  isSome : indexEvent.isSome ↔ key ∉ recent capacity ledger.uses
  indexFor : ∀ event ∈ indexEvent, IndexFor key event

theorem maybeMakeIndexEvent_follows {processor : EventProcessor} (w : World σ) (config : Config)
    (hinline : config.inlineUsersInEvents = false) (hcapacity : 0 < capacity)
    (h : Follows capacity ledger processor) (user : User) (timestamp : Rat) (s : σ) :
    Run.Ensures (maybeMakeIndexEvent w config user timestamp processor) s fun made _ =>
      Follows capacity ((ledger.tick w config.userKeysFlushInterval s).use user.key) made.2 ∧
        MakesIndex capacity (ledger.tick w config.userKeysFlushInterval s) user.key made.1 := by
  rw [maybeMakeIndexEvent, hinline, if_neg (by simp)]
  refine (flushUserKeys_follows w config h s).bind fun flushed t hflushed => ?_
  obtain ⟨hstatus, huse⟩ := hflushed.use hcapacity user.key
  generalize flushed.userKeys.insert user.key = inserted at *
  obtain ⟨status, userKeys⟩ := inserted
  cases status with
  | existed => exact Run.ensures_pure ⟨huse, by simpa using hstatus, by simp⟩
  | new =>
      refine Run.ensures_lift_bind fun event hevent => Run.ensures_pure ⟨huse, ?_, ?_⟩
      · simpa using hstatus
      · intro other hother
        cases hother
        exact newIndexEvent_indexFor hevent

end IndexEvent

end ServerSdk
