import ServerSdk.Program.Inflow
import ServerSdk.Store.Memory

namespace ServerSdk

open Program

inductive RCFault where
  | freed
  | assertion
  | depth
  deriving DecidableEq, Repr

structure JSONRC where
  value : Json
  count : ℕ
  associated : Option (List ℕ)

structure Destruction where
  object : ℕ
  liveParents : List ℕ
  deriving DecidableEq, Repr

structure RCHeap where
  blocks : ℕ → Option JSONRC
  allocated : ℕ
  destroyed : List Destruction

namespace RCHeap

def empty : RCHeap := ⟨fun _ => none, 0, []⟩

def get (heap : RCHeap) (rc : ℕ) : Except RCFault JSONRC :=
  match heap.blocks rc with
  | none => .error .freed
  | some block => .ok block

def put (heap : RCHeap) (rc : ℕ) (block : Option JSONRC) : RCHeap :=
  { heap with blocks := Function.update heap.blocks rc block }

def countOf (heap : RCHeap) (rc : ℕ) : ℕ := (heap.blocks rc).elim 0 JSONRC.count

def associates (heap : RCHeap) (rc : ℕ) : List ℕ :=
  (heap.blocks rc).elim [] fun block => block.associated.getD []

def liveParents (heap : RCHeap) (rc : ℕ) : List ℕ :=
  (List.range heap.allocated).filter fun parent => 0 < heap.countOf parent ∧ rc ∈ heap.associates parent

end RCHeap

def jsonRCNew (json : Json) (heap : RCHeap) : ℕ × RCHeap :=
  (heap.allocated,
    { heap.put heap.allocated (some ⟨json, 1, none⟩) with allocated := heap.allocated + 1 })

def destroyJSONRC (rc : ℕ) (heap : RCHeap) : RCHeap :=
  { heap.put rc none with destroyed := ⟨rc, heap.liveParents rc⟩ :: heap.destroyed }

def eachAssociate (change : ℕ → RCHeap → Except RCFault RCHeap) :
    List ℕ → RCHeap → Except RCFault RCHeap
  | [], heap => pure heap
  | rc :: rcs, heap => do
      let heap ← change rc heap
      eachAssociate change rcs heap

def changeAssociated (change : ℕ → RCHeap → Except RCFault RCHeap) (rc : ℕ) (heap : RCHeap) :
    Except RCFault RCHeap := do
  let block ← heap.get rc
  match block.associated with
  | none => pure heap
  | some associated => eachAssociate change associated heap

-- The fuel bounds the depth of the recursion. The count is an unsigned int.
def jsonRCRetain : ℕ → ℕ → RCHeap → Except RCFault RCHeap
  | 0, _, _ => .error .depth
  | fuel + 1, rc, heap => do
      let block ← heap.get rc
      let heap := heap.put rc (some { block with count := (block.count + 1) % 2 ^ 32 })
      changeAssociated (jsonRCRetain fuel) rc heap

def jsonRCRelease : ℕ → ℕ → RCHeap → Except RCFault RCHeap
  | 0, _, _ => .error .depth
  | fuel + 1, rc, heap => do
      let block ← heap.get rc
      if block.count = 0 then .error .assertion
      else do
        let heap := heap.put rc (some { block with count := block.count - 1 })
        let heap ← changeAssociated (jsonRCRelease fuel) rc heap
        let block ← heap.get rc
        if block.count = 0 then pure (destroyJSONRC rc heap) else pure heap

def jsonRCAssociate (fuel rc : ℕ) (associates : Option (List ℕ)) (heap : RCHeap) :
    Except RCFault RCHeap := do
  let block ← heap.get rc
  let heap ← match block.associated with
    | none => pure heap
    | some _ => do
        let heap ← changeAssociated (jsonRCRelease fuel) rc heap
        let block ← heap.get rc
        pure (heap.put rc (some { block with associated := none }))
  let block ← heap.get rc
  let heap := heap.put rc (some { block with associated := associates })
  changeAssociated (jsonRCRetain fuel) rc heap

structure RCState where
  heap : RCHeap
  held : List ℕ

inductive RCCall where
  | new (json : Json)
  | associate (rc : ℕ) (associates : Option (List ℕ))
  | retain (rc : ℕ)
  | release (rc : ℕ)

namespace RCState

def start : RCState := ⟨.empty, []⟩

def perform (state : RCState) : RCCall → Except RCFault RCState
  | .new json =>
      let (rc, heap) := jsonRCNew json state.heap
      pure ⟨heap, rc :: state.held⟩
  | .associate rc associates => do
      let heap ← jsonRCAssociate (state.heap.allocated + 1) rc associates state.heap
      pure { state with heap }
  | .retain rc => do
      let heap ← jsonRCRetain (state.heap.allocated + 1) rc state.heap
      pure ⟨heap, rc :: state.held⟩
  | .release rc => do
      let heap ← jsonRCRelease (state.heap.allocated + 1) rc state.heap
      pure ⟨heap, state.held.erase rc⟩

def linkedBy (heap : RCHeap) (rc : ℕ) (associates : Option (List ℕ)) : ℕ → List ℕ :=
  Function.update heap.associates rc (associates.getD [])

def Allowed (state : RCState) : RCCall → Prop
  | .new _ => True
  | .associate rc associates => state.heap.countOf rc = 1 ∧ state.heap.associates rc = [] ∧
      (∀ associate ∈ associates.getD [], (state.heap.blocks associate).isSome) ∧
        LoopFree (linkedBy state.heap rc associates)
  | .retain rc => (state.heap.blocks rc).isSome
  | .release rc => rc ∈ state.held

def FitAfter (state : RCState) (call : RCCall) : Prop :=
  match call with
  | .new _ | .release _ => True
  | .associate rc associates => ∃ references, Weighs (Finset.range state.heap.allocated)
      (linkedBy state.heap rc associates) state.held.count references ∧ ∀ rc, references rc < 2 ^ 32
  | .retain rc => ∃ references, Weighs (Finset.range state.heap.allocated) state.heap.associates
      (rc :: state.held).count references ∧ ∀ rc, references rc < 2 ^ 32

end RCState

end ServerSdk
