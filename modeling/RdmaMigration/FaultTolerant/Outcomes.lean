import RdmaMigration.FaultTolerant.Steps

/-! # What the metadata operations report

Each of them reads a node, makes a new text of it and writes that back under the version
it has read. The read may fail, and other clients may write in between. A failed read
leaves `stat` as the stack had it, and most of the operations go on with that version.
-/

namespace RdmaMigration.FaultTolerant.Outcomes

open Lib Function Manager Coordinator

/-- What one operation meets: whether its read fails, what the others write between the
read and the write, and what `stat.version` holds before the read. -/
structure Encounter where
  getFails : Bool
  meanwhile : Store → Store
  stale : Int

namespace Encounter

/-- `stat.version` after a read that has returned this version, or has failed. -/
def statVersion (e : Encounter) (version : Option Nat) : Int := version.elim e.stale Int.ofNat

def serve (e : Encounter) (w : World) : (r : Request) → Answer r × World
  | .get p => (if e.getFails then none else w.zk.get p, { w with zk := e.meanwhile w.zk })
  | .set p data version =>
      w.attempt (replaceAt w.zk p (fun n => some ⟨data, n.version + 1⟩) (e.statVersion version))
        .answered
  | .remove p version =>
      w.attempt (replaceAt w.zk p (fun _ => none) (e.statVersion version)) .answered
  | r => FaultTolerant.serve false .answered w r

def read (e : Encounter) (w : World) (p : Path) : Option ZNode :=
  if e.getFails then none else w.zk.get p

end Encounter

/-! ## The operations -/

inductive Operation where
  | createMemorySegmentNode (address size : Nat) (source destination id : Int)
  | updateSegmentDestination (id destination : Int)
  | cleanMemorySegment (serverId id : Int)
  | deleteMemorySegment (id : Int)
  | addToProcessList (serverId id : Int)
  | removeFromProcessList (serverId id : Int)
  deriving DecidableEq, Repr

namespace Operation

def script : Operation → Steps Bool
  | createMemorySegmentNode address size source destination id =>
      Steps.createMemorySegmentNode address size source destination id
  | updateSegmentDestination id destination => Steps.updateSegmentDestination id destination
  | cleanMemorySegment serverId id => Steps.cleanMemorySegment serverId id
  | deleteMemorySegment id => Steps.deleteMemorySegment id
  | addToProcessList serverId id => Steps.addToProcessList serverId id
  | removeFromProcessList serverId id => Steps.removeFromProcessList serverId id

def path : Operation → Path
  | createMemorySegmentNode _ _ _ _ id | updateSegmentDestination id _ | cleanMemorySegment _ id
  | deleteMemorySegment id => .segment id
  | addToProcessList serverId _ | removeFromProcessList serverId _ => .process serverId

/-- The node before the write of the operation. Only `createMemorySegmentNode` makes no
read in front of it. -/
def before (e : Encounter) (w : World) : Operation → Store
  | createMemorySegmentNode _ _ _ _ _ => w.zk
  | _ => e.meanwhile w.zk

/-- The new node that is intended for a record that was read, `none` if there is none to
be made. -/
def intended : Operation → Option ZNode → Option (Option ZNode)
  | createMemorySegmentNode address size source destination id, none =>
      some (some ⟨mapToZs (segmentMap address size source destination id), 0⟩)
  | updateSegmentDestination _ destination, some n =>
      (zsToMap n.data).map fun map =>
        some ⟨mapToZs (map.insert Key.destination (decimalInt destination)), n.version + 1⟩
  | cleanMemorySegment serverId _, some n =>
      (zsToMap n.data).map fun map =>
        some ⟨mapToZs ((map.insert Key.source (decimalInt serverId)).insert Key.destination []),
          n.version + 1⟩
  | deleteMemorySegment _, some n => (zsToMap n.data).map fun _ => none
  | addToProcessList _ id, some n =>
      some (some ⟨n.data ++ decimalInt id ++ [','], n.version + 1⟩)
  | removeFromProcessList _ id, some n =>
      (zsToProcessList n.data).map fun ids =>
        some ⟨processListToZs (ids.filter (· ≠ id)), n.version + 1⟩
  | createMemorySegmentNode _ _ _ _ _, some _ => none
  | updateSegmentDestination _ _, none | cleanMemorySegment _ _, none
  | deleteMemorySegment _, none | addToProcessList _ _, none
  | removeFromProcessList _ _, none => none

/-- What `intended` is made from: for `createMemorySegmentNode` that there is no node. -/
def basis (e : Encounter) (w : World) : Operation → Option ZNode
  | createMemorySegmentNode _ _ _ _ id => w.zk (.segment id)
  | op => e.read w op.path

/-- The operation returns 0 and its write has been made on the record that it has read,
or it returns -1 and has changed nothing. -/
def ReportsTruly (op : Operation) (e : Encounter) (w : World) : Prop :=
  ∃ result w', op.script.run e.serve w = (.ok result, w') ∧
    if result then
      op.before e w op.path = w.zk op.path ∧ ∃ new, op.intended (op.basis e w) = some new ∧
        w'.zk = update (op.before e w) op.path new
    else w'.zk = op.before e w

end Operation

/-! ## The conditions -/

namespace Encounter

variable (e : Encounter) (w : World) (p : Path)

/-- If the version is still the one that was read, so is the node: it has not been
deleted and created again with as many writes. -/
def Untouched (version : Nat) : Prop :=
  ∀ n, e.meanwhile w.zk p = some n → n.version = version → e.meanwhile w.zk p = w.zk p

/-- The version that the stack had in `stat` is not taken for that of the node. -/
def Unmatched : Prop := ∀ n, e.meanwhile w.zk p = some n → ¬ Matches e.stale n

def SegmentSafe (id : Int) : Prop :=
  match e.read w (.segment id) with
  | some n => (zsToMap n.data).isSome ∧ e.Untouched w (.segment id) n.version
  | none => e.Unmatched w (.segment id)

end Encounter

/-- `removeFromProcessList` does not look at the result of its write, so after a read that
has succeeded the write must not fail. -/
def Operation.Safe (e : Encounter) (w : World) : Operation → Prop
  | .createMemorySegmentNode _ _ _ _ _ => True
  | .updateSegmentDestination id _ | .cleanMemorySegment _ id | .deleteMemorySegment id =>
      e.SegmentSafe w id
  | .addToProcessList serverId _ =>
      ∀ n, e.read w (.process serverId) = some n → e.Untouched w (.process serverId) n.version
  | .removeFromProcessList serverId _ =>
      match e.read w (.process serverId) with
      | some n => (zsToProcessList n.data).isSome ∧
          e.meanwhile w.zk (.process serverId) = w.zk (.process serverId)
      | none => e.Unmatched w (.process serverId)

/-! ## The writes -/

namespace Encounter

variable {e : Encounter} {w : World} {p : Path}

def overtaken (e : Encounter) (w : World) : World := { w with zk := e.meanwhile w.zk }

def write (e : Encounter) (w : World) (p : Path) (new : Nat → Option ZNode) (n : Option ZNode) :
    Bool × World :=
  (e.overtaken w).attempt (replaceAt (e.overtaken w).zk p (fun m => new m.version)
    (e.statVersion (n.map ZNode.version))) .answered

theorem version_of_read {n : ZNode} (h : e.read w p = some n) :
    ∃ data, w.zk p = some ⟨data, n.version⟩ := by
  unfold read at h
  obtain ⟨-, h⟩ := Option.ite_none_left_eq_some.mp h
  obtain ⟨m, hm, rfl⟩ := Option.map_eq_some_iff.mp h
  exact ⟨m.data, hm⟩

theorem write_some {m : ZNode} {n : Option ZNode} (hm : e.meanwhile w.zk p = some m)
    (hmatch : Matches (e.statVersion (n.map ZNode.version)) m) (new : Nat → Option ZNode) :
    e.write w p new n = (true, { w with
      zk := update (e.meanwhile w.zk) p (new m.version) }) := by
  have hm' : (e.overtaken w).zk p = some m := hm
  rw [write, replaceAt_some hm' hmatch]
  rfl

theorem write_none {n : Option ZNode} (h : ∀ m, e.meanwhile w.zk p = some m →
    ¬ Matches (e.statVersion (n.map ZNode.version)) m) (new : Nat → Option ZNode) :
    e.write w p new n = (false, e.overtaken w) := by
  have h' : ∀ m, (e.overtaken w).zk p = some m →
      ¬ Matches (e.statVersion (n.map ZNode.version)) m := h
  rw [write, replaceAt_none h']
  rfl

end Encounter

/-! ## The operations one by one -/

namespace Operation

variable {op : Operation} {e : Encounter} {w : World}

theorem reportsTruly_of_read {n : ZNode} (new : Nat → Option ZNode)
    (hrun : op.script.run e.serve w =
      (.ok (e.write w op.path new (some n)).1, (e.write w op.path new (some n)).2))
    (hbefore : op.before e w = e.meanwhile w.zk)
    (hintended : op.intended (op.basis e w) = some (new n.version)) :
    op.ReportsTruly e w ↔ e.Untouched w op.path n.version := by
  unfold ReportsTruly
  rw [hrun, hbefore, hintended]
  by_cases hmatch : ∃ m, e.meanwhile w.zk op.path = some m ∧ m.version = n.version
  · obtain ⟨m, hm, hversion⟩ := hmatch
    rw [Encounter.write_some (n := some n) hm (matches_ofNat.mpr hversion)]
    constructor
    · rintro ⟨result, w', heq, hresult⟩ - - -
      cases heq
      exact hresult.1
    · intro huntouched
      exact ⟨_, _, rfl, huntouched m hm hversion, _, rfl, by rw [hversion]⟩
  · have hfree : ∀ m, e.meanwhile w.zk op.path = some m →
        ¬ Matches (e.statVersion ((some n).map ZNode.version)) m :=
      fun m hm hver => hmatch ⟨m, hm, matches_ofNat.mp hver⟩
    rw [Encounter.write_none hfree]
    exact iff_of_true ⟨_, _, rfl, rfl⟩ fun m hm hversion => absurd ⟨m, hm, hversion⟩ hmatch

theorem reportsTruly_of_unread (new : Nat → Option ZNode) (hrun : op.script.run e.serve w =
      (.ok (e.write w op.path new none).1, (e.write w op.path new none).2))
    (hbefore : op.before e w = e.meanwhile w.zk) (hintended : op.intended (op.basis e w) = none) :
    op.ReportsTruly e w ↔ e.Unmatched w op.path := by
  unfold ReportsTruly
  rw [hrun, hbefore, hintended]
  by_cases hmatch : ∃ m, e.meanwhile w.zk op.path = some m ∧ Matches e.stale m
  · obtain ⟨m, hm, hstale⟩ := hmatch
    rw [Encounter.write_some (n := none) hm hstale]
    refine iff_of_false ?_ fun hun => hun m hm hstale
    rintro ⟨result, w', heq, hresult⟩
    cases heq
    obtain ⟨-, new', hnew, -⟩ := hresult
    cases hnew
  · have hfree : ∀ m, e.meanwhile w.zk op.path = some m →
        ¬ Matches (e.statVersion (Option.map ZNode.version none)) m :=
      fun m hm hver => hmatch ⟨m, hm, hver⟩
    rw [Encounter.write_none hfree]
    exact iff_of_true ⟨_, _, rfl, rfl⟩ hfree

theorem run_rewriteSegment (id : Int) (change : TextMap → TextMap) :
    (Steps.rewriteSegment id change).run e.serve w =
      match zsToMap (textOf (e.read w (.segment id))) with
      | none => (.error .outOfRange, e.overtaken w)
      | some map =>
          let written := e.write w (.segment id) (fun v => some ⟨mapToZs (change map), v + 1⟩)
            (e.read w (.segment id))
          (.ok written.1, written.2) := by
  show ((Script.orThrow .outOfRange (zsToMap (textOf (e.read w (.segment id)))) >>= fun map =>
    _ : Steps Bool).run e.serve (e.overtaken w)) = _
  cases zsToMap (textOf (e.read w (.segment id))) with
  | none => rfl
  | some map => rfl

theorem run_deleteMemorySegment (id : Int) :
    (Steps.deleteMemorySegment id).run e.serve w =
      match zsToMap (textOf (e.read w (.segment id))) with
      | none => (.error .outOfRange, e.overtaken w)
      | some _ =>
          let written := e.write w (.segment id) (fun _ => none) (e.read w (.segment id))
          (.ok written.1, written.2) := by
  show ((Script.orThrow .outOfRange (zsToMap (textOf (e.read w (.segment id)))) >>= fun map =>
    _ : Steps Bool).run e.serve (e.overtaken w)) = _
  cases zsToMap (textOf (e.read w (.segment id))) with
  | none => rfl
  | some map => rfl

theorem run_removeFromProcessList (serverId id : Int) :
    (Steps.removeFromProcessList serverId id).run e.serve w =
      match zsToProcessList (textOf (e.read w (.process serverId))) with
      | none => (.error .outOfRange, e.overtaken w)
      | some ids =>
          (.ok (e.read w (.process serverId)).isSome,
            (e.write w (.process serverId)
              (fun v => some ⟨processListToZs (ids.filter (· ≠ id)), v + 1⟩)
              (e.read w (.process serverId))).2) := by
  show ((Script.orThrow .outOfRange (zsToProcessList (textOf (e.read w (.process serverId)))) >>=
    fun ids => _ : Steps Bool).run e.serve (e.overtaken w)) = _
  cases zsToProcessList (textOf (e.read w (.process serverId))) with
  | none => rfl
  | some ids => rfl

theorem segment_reportsTruly_iff {id : Int} (make : TextMap → Nat → Option ZNode)
    (hpath : op.path = .segment id) (hrun : op.script.run e.serve w =
      match zsToMap (textOf (e.read w (.segment id))) with
      | none => (.error .outOfRange, e.overtaken w)
      | some map =>
          let written := e.write w (.segment id) (make map) (e.read w (.segment id))
          (.ok written.1, written.2)) (hbefore : op.before e w = e.meanwhile w.zk)
    (hintended : op.intended (op.basis e w) = (e.read w (.segment id)).bind fun n =>
      (zsToMap n.data).map fun map => make map n.version) :
    op.ReportsTruly e w ↔ e.SegmentSafe w id := by
  unfold Encounter.SegmentSafe
  rw [← hpath] at hrun hintended ⊢
  cases hread : e.read w op.path with
  | none =>
      rw [hread] at hrun hintended
      exact reportsTruly_of_unread _ hrun hbefore hintended
  | some n =>
      rw [hread] at hrun hintended
      simp only [textOf, Option.elim_some, Option.bind_some] at hrun hintended
      cases hmap : zsToMap n.data with
      | none =>
          rw [hmap] at hrun
          refine iff_of_false ?_ fun hsafe => ?_
          · rintro ⟨result, w', heq, -⟩
            rw [hrun] at heq
            cases heq
          · dsimp only at hsafe
            rw [hmap] at hsafe
            cases hsafe.1
      | some map =>
          rw [hmap] at hrun hintended
          rw [reportsTruly_of_read _ hrun hbefore hintended]
          simp [hmap]

theorem create_reportsTruly (e : Encounter) (w : World) (address size : Nat)
    (source destination id : Int) :
    (createMemorySegmentNode address size source destination id).ReportsTruly e w := by
  have hrun : (createMemorySegmentNode address size source destination id).script.run e.serve w =
      (.ok (w.zk.attempt (w.zk.create (.segment id)
        (mapToZs (segmentMap address size source destination id))) .answered).2,
        { w with zk := (w.zk.attempt (w.zk.create (.segment id)
          (mapToZs (segmentMap address size source destination id))) .answered).1 }) := rfl
  refine ⟨_, _, hrun, ?_⟩
  unfold Store.create
  cases hnode : w.zk (.segment id) with
  | none =>
      refine ⟨rfl, _, ?_, rfl⟩
      show intended _ (w.zk (.segment id)) = _
      rw [hnode]
      rfl
  | some n => rfl

theorem run_addToProcessList (serverId id : Int) :
    (Steps.addToProcessList serverId id).run e.serve w =
      (e.read w (.process serverId)).elim (.ok false, e.overtaken w) fun n =>
        let written := e.write w (.process serverId)
          (fun v => some ⟨n.data ++ decimalInt id ++ [','], v + 1⟩) (some n)
        (.ok written.1, written.2) := by
  refine (Script.run_ask e.serve _ _ w).trans ?_
  have hget : e.serve w (.get (.process serverId)) =
    (e.read w (.process serverId), e.overtaken w) := rfl
  rw [hget]
  cases e.read w (.process serverId) with
  | none => rfl
  | some n => rfl

theorem add_reportsTruly_iff (e : Encounter) (w : World) (serverId id : Int) :
    (addToProcessList serverId id).ReportsTruly e w ↔ (addToProcessList serverId id).Safe e w := by
  have hrun : (addToProcessList serverId id).script.run e.serve w = _ :=
    run_addToProcessList serverId id
  cases hread : e.read w (.process serverId) with
  | none =>
      rw [hread] at hrun
      refine iff_of_true ⟨_, _, hrun, rfl⟩ fun n hn => ?_
      rw [hread] at hn
      cases hn
  | some n =>
      rw [hread] at hrun
      have hintended : (addToProcessList serverId id).intended
          ((addToProcessList serverId id).basis e w) =
          some (some ⟨n.data ++ decimalInt id ++ [','], n.version + 1⟩) := by
        show intended _ (e.read w (.process serverId)) = _
        rw [hread]
        rfl
      rw [reportsTruly_of_read (fun v => some ⟨n.data ++ decimalInt id ++ [','], v + 1⟩) hrun rfl
        hintended]
      constructor
      · intro huntouched n' hn'
        cases hread.symm.trans hn'
        exact huntouched
      · intro hsafe
        exact hsafe n hread

theorem remove_reportsTruly_iff (e : Encounter) (w : World) (serverId id : Int) :
    (removeFromProcessList serverId id).ReportsTruly e w ↔
      (removeFromProcessList serverId id).Safe e w := by
  have hrun : (removeFromProcessList serverId id).script.run e.serve w = _ :=
    run_removeFromProcessList serverId id
  unfold Safe
  cases hread : e.read w (.process serverId) with
  | none =>
      rw [hread] at hrun
      have hlist : zsToProcessList (textOf none) = some [] := rfl
      rw [hlist] at hrun
      dsimp only at hrun
      simp only [hread]
      constructor
      · rintro ⟨result, w', heq, hresult⟩ m hm hstale
        rw [hrun, Encounter.write_some (n := none) hm hstale] at heq
        cases heq
        -- the node has a new version
        have hnode := congrFun hresult (.process serverId)
        dsimp only at hnode
        rw [update_self] at hnode
        have hversion := congrArg ZNode.version (Option.some.inj (hnode.trans hm))
        exact absurd hversion (Nat.succ_ne_self _)
      · intro hun
        refine ⟨_, _, hrun, ?_⟩
        rw [Encounter.write_none (n := none) hun]
        rfl
  | some n =>
      rw [hread] at hrun
      have htext : textOf (some n) = n.data := rfl
      rw [htext] at hrun
      simp only [hread]
      cases hids : zsToProcessList n.data with
      | none =>
          rw [hids] at hrun
          refine iff_of_false ?_ fun hsafe => by cases hsafe.1
          rintro ⟨result, w', heq, -⟩
          rw [hrun] at heq
          cases heq
      | some ids =>
          rw [hids] at hrun
          dsimp only at hrun
          constructor
          · rintro ⟨result, w', heq, hresult⟩
            rw [hrun] at heq
            cases heq
            exact ⟨rfl, hresult.1⟩
          · rintro ⟨-, hsame⟩
            obtain ⟨data, hnode⟩ := Encounter.version_of_read hread
            have hm : e.meanwhile w.zk (.process serverId) = some ⟨data, n.version⟩ :=
              hsame.trans hnode
            refine ⟨_, _, hrun, hsame, some ⟨processListToZs (ids.filter (· ≠ id)), n.version + 1⟩,
              ?_, ?_⟩
            · show intended _ (e.read w (.process serverId)) = _
              rw [hread]
              show (zsToProcessList n.data).map _ = _
              rw [hids]
              rfl
            · rw [Encounter.write_some (n := some n) hm (matches_ofNat.mpr rfl)]
              rfl

end Operation

/-- For every state of ZooKeeper and whatever the operation meets. -/
theorem operations_report (op : Operation) (e : Encounter) (w : World) :
    op.ReportsTruly e w ↔ op.Safe e w := by
  cases op with
  | createMemorySegmentNode address size source destination id =>
      exact iff_of_true (Operation.create_reportsTruly ..) trivial
  | updateSegmentDestination id destination =>
      refine Operation.segment_reportsTruly_iff _ rfl (Operation.run_rewriteSegment _ _) rfl ?_
      show Operation.intended _ (e.read w (.segment id)) = _
      cases e.read w (.segment id) with
      | none => rfl
      | some n => rfl
  | cleanMemorySegment serverId id =>
      refine Operation.segment_reportsTruly_iff _ rfl (Operation.run_rewriteSegment _ _) rfl ?_
      show Operation.intended _ (e.read w (.segment id)) = _
      cases e.read w (.segment id) with
      | none => rfl
      | some n => rfl
  | deleteMemorySegment id =>
      refine Operation.segment_reportsTruly_iff (fun _ _ => none) rfl
        (Operation.run_deleteMemorySegment _) rfl ?_
      show Operation.intended _ (e.read w (.segment id)) = _
      cases e.read w (.segment id) with
      | none => rfl
      | some n => rfl
  | addToProcessList serverId id => exact Operation.add_reportsTruly_iff ..
  | removeFromProcessList serverId id => exact Operation.remove_reportsTruly_iff ..

def kept : Store
  | .process 0 => some ⟨['7', ','], 3⟩
  | .segment 7 => some ⟨mapToZs (segmentMap (2 ^ 44) 4096 0 (-1) 7), 5⟩
  | _ => none

def keeper : World := ⟨Server.construct 2 0, kept⟩

/-- Another thread adds 8 between the read and the write of `removeFromProcessList(7)`,
which returns 0 although 7 is still in the list. And after a failed read
`updateSegmentDestination` takes -1 from the stack for the version: it returns 0 and the
record has lost all fields but one. -/
theorem operations_misreport :
    (∃ w', (Operation.removeFromProcessList 0 7).script.run (Encounter.serve ⟨false,
        fun z => update z (.process 0) (some ⟨['7', ',', '8', ','], 4⟩), 0⟩) keeper =
          (.ok true, w') ∧ w'.zk (.process 0) = some ⟨['7', ',', '8', ','], 4⟩) ∧
    ∃ w', (Operation.updateSegmentDestination 7 1).script.run (Encounter.serve ⟨true, id, -1⟩)
        keeper = (.ok true, w') ∧
      (w'.zk (.segment 7)).map ZNode.data =
        some (mapToZs ((∅ : TextMap).insert Key.destination ['1'])) :=
  ⟨⟨_, rfl, rfl⟩, _, rfl, rfl⟩

end RdmaMigration.FaultTolerant.Outcomes
