import RdmaMigration.Coordinator.Node

/-! # Process lists and the buffer

Every operation on a process list reads the whole text through the buffer of
`ZooKeeper::get`, which takes `BUFLEN` characters. A longer text is cut there, and what
is written back is made from the cut text.
-/

namespace RdmaMigration.Coordinator

open Lib Function Manager

def segmentInfos : List Int → Zk (List TextMap)
  | [] => return []
  | id :: ids => do
      let n ← Zk.get (.segment id)
      let map ← Zk.orThrow .outOfRange (zsToMap (textOf n))
      let rest ← segmentInfos ids
      return map :: rest

def getPartitionsForProcess (processId : Int) : Zk (List TextMap) := do
  let n ← Zk.get (.process processId)
  let ids ← Zk.orThrow .outOfRange (zsToProcessList (textOf n))
  segmentInfos ids

section Alone

variable {z : Store} {p : Path} {n : ZNode} {failed : Bool}

theorem get_alone (z : Store) (p : Path) (failed : Bool) :
    Zk.get p ⟨z, [], failed⟩ = .ok (z.get p, ⟨z, [], failed || (z.get p).isNone⟩) := rfl

theorem set_alone (hn : z p = some n) (data : List Char) (failed : Bool) :
    Zk.set p data (some n.version) ⟨z, [], failed⟩ =
      .ok (true, ⟨update z p (some ⟨data, n.version + 1⟩), [], failed⟩) := by
  simp [Zk.set, Zk.write, Session.arrive, Store.set, hn]

theorem get_version (h : z.get p = some n) : ∃ data, z p = some ⟨data, n.version⟩ := by
  obtain ⟨m, hm, rfl⟩ := Option.map_eq_some_iff.mp h
  exact ⟨m.data, hm⟩

end Alone

section Lists

variable {z : Store} {serverId id : Int} {ids : List Int} {n : ZNode}

theorem addToProcessList_alone (h : z.get (.process serverId) = some n) (id : Int) :
    addToProcessList serverId id ⟨z, [], false⟩ = .ok (true, ⟨update z
      (.process serverId) (some ⟨n.data ++ decimalInt id ++ [','], n.version + 1⟩),
    [], false⟩) := by
  obtain ⟨data, hnode⟩ := get_version h
  have hget := get_alone z (.process serverId) false
  rw [h] at hget
  exact Zk.bind_eq_ok.mpr ⟨_, _, hget, set_alone hnode _ _⟩

theorem readList_alone {α : Type} (h : z.get (.process serverId) = some n)
    (f : Option ZNode → List Int → Zk α) :
    (do
      let n ← Zk.get (.process serverId)
      let ids ← Zk.orThrow .outOfRange (zsToProcessList (textOf n))
      f n ids : Zk α) ⟨z, [], false⟩ =
      match zsToProcessList n.data with
      | none => .error .outOfRange
      | some ids => f (some n) ids ⟨z, [], false⟩ := by
  have hget := get_alone z (.process serverId) false
  rw [h] at hget
  show (Zk.get (.process serverId) ⟨z, [], false⟩ >>= fun r => _) = _
  rw [hget]
  show (Zk.orThrow .outOfRange (zsToProcessList n.data) ⟨z, [], false⟩ >>= fun r => _) = _
  cases zsToProcessList n.data with
  | none => rfl
  | some ids => rfl

theorem removeFromProcessList_alone (h : z.get (.process serverId) = some n)
    (hids : zsToProcessList n.data = some ids) (id : Int) :
    removeFromProcessList serverId id ⟨z, [], false⟩ = .ok (true, ⟨update z
      (.process serverId) (some ⟨processListToZs (ids.filter (· ≠ id)), n.version + 1⟩), [],
      false⟩) := by
  obtain ⟨data, hnode⟩ := get_version h
  rw [removeFromProcessList, readList_alone h, hids]
  exact Zk.bind_eq_ok.mpr ⟨_, _, set_alone hnode _ _, rfl⟩

theorem segmentInfos_alone (failed : Bool)
    (h : ∀ id ∈ ids, (zsToMap (textOf (z.get (.segment id)))).isSome) :
    ∃ infos t, segmentInfos ids ⟨z, [], failed⟩ = .ok (infos, t) ∧
      List.Forall₂
    (fun id info => zsToMap (textOf (z.get (.segment id))) = some info) ids infos := by
  induction ids generalizing failed with
  | nil => exact ⟨[], _, rfl, .nil⟩
  | cons id ids ih =>
      obtain ⟨info, hinfo⟩ := Option.isSome_iff_exists.mp (h id List.mem_cons_self)
      obtain ⟨infos, t, hrest, hall⟩ := ih (failed || (z.get (.segment id)).isNone)
        fun id hid => h id (List.mem_cons_of_mem _ hid)
      refine ⟨info :: infos, t, ?_, .cons hinfo hall⟩
      refine Zk.bind_eq_ok.mpr ⟨_, _, get_alone z (.segment id) failed, ?_⟩
      refine Zk.bind_eq_ok.mpr ⟨info, _, Zk.orThrow_eq_ok.mpr ⟨info, hinfo, rfl⟩, ?_⟩
      exact Zk.bind_eq_ok.mpr ⟨infos, t, hrest, rfl⟩

end Lists

/-! ## Lists of any length -/

/-- What the three operations are to do with the list `ids` of a server: the id is added
at the end, every occurrence of the id goes, and every id is visited. -/
structure ListKept (z : Store) (serverId : Int) (ids : List Int) (id : Int) : Prop where
  added : ∃ t, addToProcessList serverId id ⟨z, [], false⟩ = .ok (true, t) ∧
    (t.store (.process serverId)).map ZNode.data = some (processListToZs (ids ++ [id]))
  removed : ∃ t, removeFromProcessList serverId id ⟨z, [], false⟩ = .ok (true, t) ∧
    (t.store (.process serverId)).map ZNode.data =
      some (processListToZs (ids.filter (· ≠ id)))
  visited : getPartitionsForProcess serverId ⟨z, [], false⟩ = segmentInfos ids ⟨z, [], false⟩
  informed : (∀ id ∈ ids, (zsToMap (textOf (z.get (.segment id)))).isSome) →
    ∃ infos t, getPartitionsForProcess serverId ⟨z, [], false⟩ = .ok (infos, t) ∧
      List.Forall₂ (fun id info => zsToMap (textOf (z.get (.segment id))) = some info) ids infos

theorem processListToZs_snoc (ids : List Int) (id : Int) :
    processListToZs (ids ++ [id]) = processListToZs ids ++ decimalInt id ++ [','] := by
  simp [processListToZs]

theorem get_processList {z : Store} {serverId : Int} {ids : List Int} {version : Nat}
    (hnode : z (.process serverId) = some ⟨processListToZs ids, version⟩)
    (hshort : (processListToZs ids).length ≤ bufLen) :
    z.get (.process serverId) = some ⟨processListToZs ids, version⟩ := by
  refine Store.get_of_short hnode hshort ?_
  rintro c hc rfl
  exact absurd (toNat_of_mem_processListToZs hc).1 (by decide)

/-- A list of 64-bit ids, with nobody else at work. -/
theorem process_list_kept {z : Store} {serverId : Int} {ids : List Int} {version : Nat}
    (hnode : z (.process serverId) = some ⟨processListToZs ids, version⟩)
    (hids : ∀ id ∈ ids, -2 ^ 63 ≤ id ∧ id < 2 ^ 63) (id : Int) :
    ListKept z serverId ids id ↔ (processListToZs ids).length ≤ bufLen := by
  constructor
  · intro hkept
    obtain ⟨t, hadd, hdata⟩ := hkept.added
    -- whatever was read stands in front of the new id
    have hget : z.get (.process serverId) =
        some ⟨cStr ((processListToZs ids).take bufLen), version⟩ := by
      rw [Store.get, hnode, Option.map_some]
    rw [addToProcessList_alone hget id, Except.ok.injEq, Prod.mk.injEq] at hadd
    rw [← hadd.2] at hdata
    dsimp only at hdata
    rw [update_self, Option.map_some, Option.some.injEq, processListToZs_snoc,
      List.append_assoc, List.append_assoc, List.append_left_inj] at hdata
    rw [← hdata]
    exact (List.takeWhile_sublist _).length_le.trans (List.length_take_le _ _)
  · intro hshort
    have hget := get_processList hnode hshort
    have hread := zsToProcessList_processListToZs hids
    have hvisited : getPartitionsForProcess serverId ⟨z, [], false⟩ =
        segmentInfos ids ⟨z, [], false⟩ := by
      rw [getPartitionsForProcess, readList_alone hget, hread]
    refine ⟨⟨_, addToProcessList_alone hget id, ?_⟩,
      ⟨_, removeFromProcessList_alone hget hread id, ?_⟩, hvisited, fun hrecords => ?_⟩
    · dsimp only
      rw [update_self, Option.map_some, processListToZs_snoc]
    · dsimp only
      rw [update_self, Option.map_some]
    · rw [hvisited]
      exact segmentInfos_alone false hrecords

def listStore (ids : List Int) : Store :=
  update (fun _ => none) (.process 0) (some ⟨processListToZs ids, 0⟩)

theorem process_list_kept_three : ListKept (listStore [5, -7, 5]) 0 [5, -7, 5] 5 :=
  (process_list_kept (update_self ..) (by decide) 5).mpr (by decide)

theorem cut_of_tens {n : Nat} (hn : bufLen = 3 * n + 1) :
    cStr ((processListToZs (List.replicate (n + 1) 10)).take bufLen) =
      processListToZs (List.replicate n 10) ++ ['1'] := by
  have htext : decimalInt 10 ++ [','] = ['1', '0', ','] := by decide
  have hlength : (processListToZs (List.replicate n 10)).length = 3 * n := by
    have hdigits : (decimalInt 10).length = 2 := by decide
    simp [processListToZs, hdigits, Nat.mul_comm]
  have htake : (processListToZs (List.replicate (n + 1) 10)).take bufLen =
      processListToZs (List.replicate n 10) ++ ['1'] := by
    rw [List.replicate_succ', processListToZs_snoc, List.append_assoc, htext, List.take_append,
      hlength, hn, List.take_of_length_le (by omega), Nat.add_sub_cancel_left]
    rfl
  rw [htake]
  refine List.takeWhile_eq_self_iff.mpr fun c hc => ?_
  rcases List.mem_append.mp hc with hc | hc
  · have hpos := (toNat_of_mem_processListToZs hc).1
    simp only [decide_eq_true_eq]
    rintro rfl
    exact absurd hpos (by decide)
  · rw [List.mem_singleton.mp hc]
    decide

/-- 1366 times the id 10, each of which takes three characters: the text that is read
ends in the middle of the last one. With 9 added the list ends in 19, and removing an
id throws, as does looking the partitions up. -/
theorem process_list_cut :
    (∃ t, addToProcessList 0 9 ⟨listStore (List.replicate 1366 10), [], false⟩ = .ok (true, t) ∧
      (t.store (.process 0)).map ZNode.data =
        some (processListToZs (List.replicate 1365 10 ++ [19]))) ∧
    removeFromProcessList 0 10 ⟨listStore (List.replicate 1366 10), [], false⟩ =
      .error .outOfRange ∧
    getPartitionsForProcess 0 ⟨listStore (List.replicate 1366 10), [], false⟩ =
      .error .outOfRange := by
  have hget : (listStore (List.replicate 1366 10)).get (.process 0) =
      some ⟨processListToZs (List.replicate 1365 10) ++ ['1'], 0⟩ := by
    rw [Store.get, listStore, update_self, Option.map_some, cut_of_tens (by decide)]
  have hunread : zsToProcessList (processListToZs (List.replicate 1365 10) ++ ['1']) = none := by
    decide +kernel
  refine ⟨⟨_, addToProcessList_alone hget 9, ?_⟩, ?_, ?_⟩
  · have htail : ['1'] ++ (decimalInt 9 ++ [',']) = decimalInt 19 ++ [','] := by decide
    dsimp only
    rw [update_self, Option.map_some]
    simp only [processListToZs_snoc, List.append_assoc, htail]
  · rw [removeFromProcessList, readList_alone hget, hunread]
  · rw [getPartitionsForProcess, readList_alone hget, hunread]

end RdmaMigration.Coordinator
