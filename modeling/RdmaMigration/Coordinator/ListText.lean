import RdmaMigration.Coordinator.Buffer
import RdmaMigration.Coordinator.Indices

/-! # The text of a process list is a list

`addToProcessList` appends to the text as it is, `removeFromProcessList` decodes it, erases
the id and encodes what is left. Both keep the format of `ProcessListtoZS`, so that any
sequence of them is the same sequence of operations on a list of ids.
-/

namespace RdmaMigration.Coordinator

open Lib

inductive ListOp where
  | add (id : Int)
  | remove (id : Int)
  deriving DecidableEq, Repr

namespace ListOp

def id : ListOp → Int
  | add id => id
  | remove id => id

def apply (ids : List Int) : ListOp → List Int
  | add id => ids ++ [id]
  | remove id => ids.filter (· ≠ id)

def perform (serverId : Int) : ListOp → Zk Bool
  | add id => addToProcessList serverId id
  | remove id => removeFromProcessList serverId id

def performAll (serverId : Int) : List ListOp → Zk Unit
  | [] => return ()
  | op :: ops => do
      let _ ← op.perform serverId
      performAll serverId ops

end ListOp

def IsInt64 (id : Int) : Prop := -2 ^ 63 ≤ id ∧ id < 2 ^ 63

instance (id : Int) : Decidable (IsInt64 id) :=
  inferInstanceAs (Decidable (-2 ^ 63 ≤ id ∧ id < 2 ^ 63))

def idText (id : Int) : List Char := decimalInt id ++ [',']

theorem ListOp.apply_int64 {ids : List Int} {op : ListOp} (hids : ∀ id ∈ ids, IsInt64 id)
    (hop : IsInt64 op.id) : ∀ id ∈ op.apply ids, IsInt64 id := by
  intro id hmem
  cases op with
  | add new =>
      rcases List.mem_append.mp hmem with hold | hnew
      · exact hids id hold
      · rw [List.mem_singleton.mp hnew]
        exact hop
  | remove gone => exact hids id (List.mem_of_mem_filter hmem)

theorem ListOp.foldl_apply_int64 {ids : List Int} {ops : List ListOp}
    (hids : ∀ id ∈ ids, IsInt64 id) (hops : ∀ op ∈ ops, IsInt64 op.id) :
    ∀ id ∈ ops.foldl apply ids, IsInt64 id := by
  induction ops generalizing ids with
  | nil => exact hids
  | cons op ops ih =>
      obtain ⟨hop, hrest⟩ := List.forall_mem_cons.mp hops
      exact ih (apply_int64 hids hop) hrest

theorem ListOp.perform_alone {z : Store} {serverId : Int} {ids : List Int} {version : Nat}
    (hnode : z (.process serverId) = some ⟨processListToZs ids, version⟩)
    (hids : ∀ id ∈ ids, IsInt64 id) (hshort : (processListToZs ids).length ≤ bufLen) (op : ListOp) :
    op.perform serverId ⟨z, [], false⟩ = .ok (true, ⟨Function.update z (.process serverId)
      (some ⟨processListToZs (op.apply ids), version + 1⟩), [], false⟩) := by
  have hget := get_processList hnode hshort
  cases op with
  | add id => rw [perform, addToProcessList_alone hget, apply, processListToZs_snoc]
  | remove id =>
      rw [perform, removeFromProcessList_alone hget (zsToProcessList_processListToZs hids), apply]

/-- Every sequence of operations, as long as no text on the way reaches the size of the
buffer. -/
theorem ListOp.performAll_alone {z : Store} {serverId : Int} {ids : List Int} {version : Nat}
    {ops : List ListOp} (hnode : z (.process serverId) = some ⟨processListToZs ids, version⟩)
    (hids : ∀ id ∈ ids, IsInt64 id) (hops : ∀ op ∈ ops, IsInt64 op.id)
    (hshort : ∀ front back, ops = front ++ back →
      (processListToZs (front.foldl apply ids)).length < bufLen) :
    ∃ z', performAll serverId ops ⟨z, [], false⟩ = .ok ((), ⟨z', [], false⟩) ∧
      z' (.process serverId) =
        some ⟨processListToZs (ops.foldl apply ids), version + ops.length⟩ := by
  induction ops generalizing z ids version with
  | nil => exact ⟨z, rfl, hnode⟩
  | cons op ops ih =>
      obtain ⟨hop, hrest⟩ := List.forall_mem_cons.mp hops
      have hfirst := perform_alone hnode hids (Nat.le_of_lt (hshort [] (op :: ops) rfl)) op
      obtain ⟨z', hlater, hnode'⟩ := ih (Function.update_self ..) (apply_int64 hids hop) hrest
        fun front back hsplit => hshort (op :: front) back (by rw [hsplit]; rfl)
      refine ⟨z', Zk.bind_eq_ok.mpr ⟨_, _, hfirst, hlater⟩, ?_⟩
      rw [hnode', List.length_cons, List.foldl_cons, Nat.add_right_comm, Nat.add_assoc]

/-! ## Decoding -/

theorem processListToZs_eq (ids : List Int) : processListToZs ids = ids.flatMap idText := rfl

theorem zsToProcessListByIndex_front {ids result : List Int} (hids : ∀ id ∈ ids, IsInt64 id)
    (h : zsToProcessListByIndex (processListToZs ids) = .returned result) :
    ∃ front back, ids = front ++ back ∧ (processListToZs front).length < 2 ^ 31 ∧
      result = front := by
  have hfront := @fieldLoop_front _ _ idText (fun ids id => ids ++ [id]) ids _ _ ?_ ?_ _ _ h
  · obtain ⟨front, back, hsplit, hshort, hresult⟩ := hfront
    refine ⟨front, back, hsplit, hshort, ?_⟩
    rw [hresult, List.foldl_append_eq_append, List.nil_append, ← List.flatMap_def]
    exact List.flatMap_singleton' front
  · intro front id back read t hsplit hshort hround
    obtain ⟨hlow, hhigh⟩ := hids id (by simp [hsplit])
    have htext : processListToZs ids =
        front.flatMap idText ++ (decimalInt id ++ ',' :: back.flatMap idText) := by
      rw [processListToZs_eq, hsplit, List.flatMap_append, List.flatMap_cons, idText]
      simp
    rw [htext] at hround
    obtain ⟨hnext, ht⟩ := zsToProcessListRound_entry (comma_not_mem_decimalInt id) hshort hround
    have hlength : ((front ++ [id]).flatMap idText).length =
        (front.flatMap idText).length + (decimalInt id).length + 1 := by
      rw [List.flatMap_append, List.flatMap_singleton, List.length_append, idText,
        List.length_append, Nat.add_assoc]
      rfl
    rw [hlength]
    refine ⟨hnext, ?_⟩
    rw [ht, cStr_decimalInt, atol_decimalInt hlow hhigh]
  · intro hshort read
    simp only [zsToProcessListRound, processListToZs_eq, nextField_end hshort, Option.bind_eq_bind,
      Option.bind_none]

/-- What the text is to do for the list: it decodes to the list, and the edits of the text
are the operations on the list. -/
structure TextImplements (ids : List Int) : Prop where
  decoded : zsToProcessListByIndex (processListToZs ids) = .returned ids
  appended : ∀ id, processListToZs ids ++ decimalInt id ++ [','] = processListToZs (ids ++ [id])
  removed : ∀ id, (zsToProcessListByIndex (processListToZs ids)).map
      (fun decoded => processListToZs (decoded.filter (· ≠ id))) =
    .returned (processListToZs (ids.filter (· ≠ id)))
  sequence : ∀ (z : Store) (serverId : Int) (version : Nat) (ops : List ListOp),
    z (.process serverId) = some ⟨processListToZs ids, version⟩ → (∀ op ∈ ops, IsInt64 op.id) →
    (∀ front back, ops = front ++ back →
      (processListToZs (front.foldl ListOp.apply ids)).length < bufLen) →
    ∃ z' n, ListOp.performAll serverId ops ⟨z, [], false⟩ = .ok ((), ⟨z', [], false⟩) ∧
      z' (.process serverId) = some n ∧
      zsToProcessListByIndex n.data = .returned (ops.foldl ListOp.apply ids)

theorem zsToProcessListByIndex_short {ids : List Int} (hids : ∀ id ∈ ids, IsInt64 id)
    (hshort : (processListToZs ids).length < 2 ^ 31) :
    zsToProcessListByIndex (processListToZs ids) = .returned ids := by
  rw [zsToProcessListByIndex_eq hshort, zsToProcessList_processListToZs hids]
  rfl

theorem process_list_text {ids : List Int} (hids : ∀ id ∈ ids, IsInt64 id) :
    TextImplements ids ↔ (processListToZs ids).length < 2 ^ 31 := by
  constructor
  · intro h
    obtain ⟨front, back, hsplit, hshort, hfront⟩ := zsToProcessListByIndex_front hids h.decoded
    rwa [hfront]
  · intro hshort
    have hdecoded := zsToProcessListByIndex_short hids hshort
    refine ⟨hdecoded, fun id => (processListToZs_snoc ids id).symm, fun id => ?_, ?_⟩
    · rw [hdecoded]
      rfl
    · intro z serverId version ops hnode hops htexts
      obtain ⟨z', hrun, hnode'⟩ := ListOp.performAll_alone hnode hids hops htexts
      have hfinal : (processListToZs (ops.foldl ListOp.apply ids)).length < 2 ^ 31 :=
        Nat.lt_trans (htexts ops [] (List.append_nil ops).symm) (by decide)
      exact ⟨z', _, hrun, hnode',
        zsToProcessListByIndex_short (ListOp.foldl_apply_int64 hids hops) hfinal⟩

theorem process_list_text_extreme : TextImplements [2 ^ 63 - 1, 0, -2 ^ 63, 0] :=
  (process_list_text (by decide)).mpr (by decide)

theorem length_processListToZs_zeros (n : Nat) :
    (processListToZs (List.replicate n 0)).length = 2 * n := by
  induction n with
  | zero => rfl
  | succ n ih =>
      have hzero : (decimalInt 0).length = 1 := by decide
      rw [List.replicate_succ', processListToZs_snoc, List.length_append, List.length_append, ih,
        hzero, List.length_singleton]
      omega

/-- With `2 ^ 30` zeros the length of the text is negative as an `int`, so nothing of it is
read. -/
theorem long_list_lost : ∃ ids : List Int, (∀ id ∈ ids, IsInt64 id) ∧ ids ≠ [] ∧
    zsToProcessListByIndex (processListToZs ids) = .returned [] := by
  have hlength := length_processListToZs_zeros (2 ^ 30)
  refine ⟨List.replicate (2 ^ 30) 0, ?_, ?_, fieldLoop_negative _ ?_⟩
  · intro id hid
    rw [List.eq_of_mem_replicate hid]
    decide
  · rw [Ne, List.replicate_eq_nil_iff]
    decide
  · rw [hlength]
    decide

end RdmaMigration.Coordinator
