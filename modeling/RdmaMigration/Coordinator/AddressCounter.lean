import RdmaMigration.Coordinator.ZooKeeper
import RdmaMigration.Lib.Ranges
import RdmaMigration.Lib.Run
import RdmaMigration.Manager.Server

/-! # The address counter

The node `/allocator` holds the next address to hand out. `getAllocationAddress`
reads it, writes it back increased, and starts over when the write is not
confirmed. Any number of callers do so at once, while constructors of
`RDMAMemNode` create the node.
-/

namespace RdmaMigration.Coordinator

open Lib Function Manager

/-- How far a caller has got: past the constructor's `exists`, in front of `get`,
or in front of `set` with the address and version that `get` returned. -/
inductive Progress where
  | idle
  | creating
  | reading (size : Nat)
  | writing (size res version : Nat)
  deriving DecidableEq, Repr

/-- `returned` lists the ranges of the calls that have returned. -/
structure Counter where
  zk : Store
  caller : Nat → Progress
  returned : List (Nat × Nat)

namespace Counter

def initial : Counter := ⟨fun _ => none, fun _ => .idle, []⟩

inductive Action where
  | exists (c : Nat) (fails : Bool)
  | create (c : Nat) (fate : Fate)
  | call (c size : Nat)
  | get (c : Nat) (fails : Bool)
  | set (c : Nat) (fate : Fate)
  deriving DecidableEq, Repr

def goto (st : Counter) (c : Nat) (progress : Progress) : Counter :=
  { st with caller := update st.caller c progress }

def increase (st : Counter) (size res version : Nat) : Option Store :=
  st.zk.set .allocator (decimal (wrap64 (res + size))) version

/-- A failed `get` leaves the text empty, and `stoul` throws. -/
def step (st : Counter) : Action → Option Counter
  | .exists c fails =>
      match st.caller c with
      | .idle => some (if fails = false ∧ st.zk .allocator = none then st.goto c .creating else st)
      | _ => none
  | .create c fate =>
      match st.caller c with
      | .creating =>
          let write := st.zk.create .allocator (decimal allocatableRangeStart)
          some { st.goto c .idle with zk := (st.zk.attempt write fate).1 }
      | _ => none
  | .call c size =>
      match st.caller c with
      | .idle => some (st.goto c (.reading size))
      | _ => none
  | .get c fails =>
      match st.caller c with
      | .reading size =>
          let read := if fails then none else st.zk.get .allocator
          match stoul (read.elim [] ZNode.data), read with
          | some res, some n => some (st.goto c (.writing size res n.version))
          | _, _ => some (st.goto c .idle)
      | _ => none
  | .set c fate =>
      match st.caller c with
      | .writing size res version =>
          let (zk, ok) := st.zk.attempt (st.increase size res version) fate
          if ok then
            some { st.goto c .idle with zk := zk, returned := st.returned ++ [(res, size)] }
          else some { st.goto c (.reading size) with zk := zk }
      | _ => none

def value (st : Counter) : Option Nat := (st.zk .allocator).bind fun n => stoul n.data

/-- No write that takes effect makes the counter reach `2 ^ 64`. -/
def Below (st : Counter) : Action → Prop
  | .set c fate =>
      match st.caller c with
      | .writing size res version =>
          fate ≠ .failed → (st.increase size res version).isSome → res + size < 2 ^ 64
      | _ => True
  | _ => True

instance (st : Counter) (act : Action) : Decidable (Below st act) := by
  unfold Below
  split
  · split
    · infer_instance
    · infer_instance
  · infer_instance

/-! ## What a step does -/

def Action.actor : Action → Nat
  | .exists c _ | .create c _ | .call c _ | .get c _ | .set c _ => c

inductive Effect (st : Counter) (act : Action) : Counter → Prop
  | moved {progress : Progress}
      (hplain : ∀ size res version, progress ≠ .writing size res version)
      (hsize : ∀ size, progress = .reading size → act = .call act.actor size ∨
        ∃ res version, st.caller act.actor = .writing size res version) :
      Effect st act (st.goto act.actor progress)
  | created (habsent : st.zk .allocator = none) :
      Effect st act { st.goto act.actor .idle with
        zk := update st.zk .allocator (some ⟨decimal allocatableRangeStart, 0⟩) }
  | read {size res : Nat} {n : ZNode} (hcaller : st.caller act.actor = .reading size)
      (hread : st.zk.get .allocator = some n) (hres : stoul n.data = some res) :
      Effect st act (st.goto act.actor (.writing size res n.version))
  | increased {size res version : Nat} {n : ZNode} {progress : Progress}
      {returned : List (Nat × Nat)} (hcaller : st.caller act.actor = .writing size res version)
      (hnode : st.zk .allocator = some n) (hversion : n.version = version)
      (hbelow : res + size < 2 ^ 64) (hprogress : progress = .idle ∨ progress = .reading size)
      (hreturned : returned = st.returned ∨ returned = st.returned ++ [(res, size)]) :
      Effect st act { caller := update st.caller act.actor progress, returned := returned
                      zk := update st.zk .allocator
                        (some ⟨decimal (res + size), version + 1⟩) }

variable {st st' : Counter} {c k version : Nat} {act : Action}

theorem goto_self {progress : Progress} (h : st.caller c = progress) :
    st.goto c progress = st := by
  rw [goto, ← h, update_eq_self]

theorem set_effect {fate : Fate} (h : step st (.set c fate) = some st')
    (hbelow : Below st (.set c fate)) : Effect st (.set c fate) st' := by
  simp only [step] at h
  split at h
  case h_2 => cases h
  case h_1 size res version hcaller =>
    rcases st.zk.attempt_cases (st.increase size res version) fate with
      hlost | ⟨zk, ok, hset, hfate, hdone⟩
    · rw [hlost] at h
      cases h
      exact .moved (by simp) (by simp [Action.actor, hcaller])
    · have hlt : res + size < 2 ^ 64 := by
        simp only [Below, hcaller] at hbelow
        exact hbelow hfate (by simp [hset])
      obtain ⟨n, hnode, hversion, rfl⟩ := Store.set_eq_some hset
      rw [wrap64_of_lt hlt] at hdone
      rw [hdone] at h
      cases ok with
      | true =>
          cases h
          exact .increased hcaller hnode hversion hlt (.inl rfl) (.inr rfl)
      | false =>
          cases h
          exact .increased hcaller hnode hversion hlt (.inr rfl) (.inl rfl)

theorem step_effect (h : step st act = some st') (hbelow : Below st act) : Effect st act st' := by
  cases act with
  | «exists» c fails =>
      simp only [step] at h
      split at h
      case h_2 => cases h
      case h_1 hidle =>
        split at h <;> cases h
        · exact .moved (by simp) (by simp)
        · have hmoved : Effect st (.exists c fails) (st.goto c .idle) :=
            .moved (by simp) (by simp)
          rwa [goto_self hidle] at hmoved
  | create c fate =>
      simp only [step] at h
      split at h
      case h_2 => cases h
      case h_1 =>
        rcases st.zk.attempt_cases _ fate with hlost | ⟨zk, ok, hcreate, -, hdone⟩
        · rw [hlost] at h
          cases h
          exact .moved (by simp) (by simp)
        · rw [hdone] at h
          obtain ⟨habsent, rfl⟩ := Store.create_eq_some hcreate
          cases h
          exact .created habsent
  | call c size =>
      simp only [step] at h
      split at h <;> cases h
      exact .moved (by simp) (by simp [Action.actor])
  | get c fails =>
      simp only [step] at h
      split at h
      case h_2 => cases h
      case h_1 hcaller =>
        split at h <;> cases h
        · rename_i n hres hread
          rw [hread] at hres
          exact .read hcaller (Option.ite_none_left_eq_some.mp hread).2 hres
        · exact .moved (by simp) (by simp)
  | set c fate => exact set_effect h hbelow

/-! ## The invariant -/

/-- The node holds `k` under the version. A writer that read this very version
read `k`, and what has been returned lies below `k`. -/
structure Written (st : Counter) (k version : Nat) : Prop where
  node : st.zk .allocator = some ⟨decimal k, version⟩
  low : allocatableRangeStart ≤ k
  high : k < 2 ^ 64
  writers : ∀ c size res v, st.caller c = .writing size res v →
    v ≤ version ∧ (v = version → res = k)
  ranges : ∀ r ∈ st.returned, allocatableRangeStart ≤ r.1 ∧ r.1 + r.2 ≤ k

structure Unwritten (st : Counter) : Prop where
  node : st.zk .allocator = none
  writers : ∀ c size res v, st.caller c ≠ .writing size res v
  ranges : st.returned = []

structure Inv (st : Counter) : Prop where
  node : Unwritten st ∨ ∃ k version, Written st k version
  apart : st.returned.Pairwise fun q r => ¬ Overlap q r

theorem initial_inv : Inv initial := ⟨.inl ⟨rfl, by simp [initial], rfl⟩, .nil⟩

theorem goto_writing {c' size res v : Nat} {progress : Progress}
    (hplain : ∀ size res version, progress ≠ .writing size res version)
    (h : update st.caller c progress c' = .writing size res v) :
    st.caller c' = .writing size res v := by
  by_cases hc : c' = c
  · subst hc
    rw [update_self] at h
    exact absurd h (hplain _ _ _)
  · rwa [update_of_ne hc] at h

theorem Written.get (h : Written st k version) :
    st.zk.get .allocator = some ⟨decimal k, version⟩ ∧ stoul (decimal k) = some k := by
  have hlow : 0 < k := lt_of_lt_of_le (by decide) h.low
  refine ⟨Store.get_of_short h.node ?_ ?_, stoul_decimal hlow h.high⟩
  · exact (length_decimal_le h.high).trans (by decide)
  · rintro c hc rfl
    exact absurd (isDigit_of_mem_decimal hc) (by decide)

theorem Unwritten.effect (h : Unwritten st) (heff : Effect st act st') :
    Unwritten st' ∨ Written st' allocatableRangeStart 0 := by
  cases heff with
  | moved hplain =>
      exact .inl ⟨h.node, fun c size res v hc => h.writers _ _ _ _ (goto_writing hplain hc),
        h.ranges⟩
  | created habsent =>
      refine .inr ⟨by simp, le_rfl, by decide, ?_, ?_⟩
      · intro c' size res v hc
        exact absurd (goto_writing (by simp) hc) (h.writers _ _ _ _)
      · intro r hr
        have hnil : r ∈ st.returned := hr
        rw [h.ranges] at hnil
        cases hnil
  | read _ hread => simp [Store.get, h.node] at hread
  | increased hcaller => exact absurd hcaller (h.writers _ _ _ _)

/-- The counter is only ever written over by a caller that read it last. -/
theorem Written.effect (h : Written st k version)
    (heff : Effect st act st') : ∃ k' version', k ≤ k' ∧ Written st' k' version' := by
  cases heff with
  | moved hplain =>
      exact ⟨k, version, le_rfl, h.node, h.low, h.high,
        fun c size res v hc => h.writers _ _ _ _ (goto_writing hplain hc), h.ranges⟩
  | created habsent => simp [h.node] at habsent
  | @read size res n _ hread hres =>
      obtain ⟨hget, hstoul⟩ := h.get
      rw [hget, Option.some.injEq] at hread
      subst hread
      have hk : k = res := Option.some.inj (hstoul.symm.trans hres)
      refine ⟨k, version, le_rfl, h.node, h.low, h.high, ?_, h.ranges⟩
      intro c' size' res' v hc
      by_cases hcc : c' = act.actor
      · subst hcc
        simp only [goto, update_self, Progress.writing.injEq] at hc
        omega
      · simp only [goto, update_of_ne hcc] at hc
        exact h.writers _ _ _ _ hc
  | @increased size res v n progress returned hcaller hnode hversion hbelow hprogress hreturned =>
      rw [h.node, Option.some.injEq] at hnode
      subst hnode
      have hplain : ∀ size res version, progress ≠ .writing size res version := by
        rcases hprogress with rfl | rfl <;> simp
      have hres : res = k := (h.writers _ _ _ _ hcaller).2 hversion.symm
      have hlow := h.low
      refine ⟨res + size, v + 1, by omega, by simp, by omega, hbelow, ?_, ?_⟩
      · intro c' size' res' v' hc
        have hle := (h.writers _ _ _ _ (goto_writing hplain hc)).1
        have hver : version = v := hversion
        omega
      · intro r hr
        have hmem : r ∈ st.returned ∨ r = (res, size) := by
          rcases hreturned with rfl | rfl
          · exact .inl hr
          · simpa using hr
        rcases hmem with hold | rfl
        · have := h.ranges r hold
          omega
        · exact ⟨by omega, le_rfl⟩

theorem Inv.apart_effect (h : Inv st) (heff : Effect st act st') :
    st'.returned.Pairwise fun q r => ¬ Overlap q r := by
  cases heff with
  | moved | created | read => exact h.apart
  | @increased size res v n progress returned hcaller hnode hversion hbelow _ hreturned =>
      rcases hreturned with rfl | rfl
      · exact h.apart
      · rcases h.node with hun | ⟨k, version, hw⟩
        · exact absurd hcaller (hun.writers _ _ _ _)
        · rw [hw.node, Option.some.injEq] at hnode
          subst hnode
          have hres : res = k := (hw.writers _ _ _ _ hcaller).2 hversion.symm
          refine List.pairwise_append.mpr ⟨h.apart, List.pairwise_singleton _ _, ?_⟩
          intro q hq r hr hover
          rw [List.mem_singleton.mp hr] at hover
          have hend := (hw.ranges q hq).2
          unfold Overlap at hover
          simp only at hover
          omega

theorem Inv.step (h : Inv st) (hbelow : Below st act)
    (hstep : step st act = some st') : Inv st' := by
  have heff := step_effect hstep hbelow
  refine ⟨?_, h.apart_effect heff⟩
  rcases h.node with hun | ⟨k, version, hw⟩
  · exact (hun.effect heff).imp id fun hw => ⟨_, _, hw⟩
  · obtain ⟨k', version', -, hw'⟩ := hw.effect heff
    exact .inr ⟨k', version', hw'⟩

theorem Written.value (h : Written st k version) :
    st.value = some k := by
  rw [Counter.value, h.node]
  exact h.get.2

theorem Inv.written (h : Inv st) (hvalue : st.value = some k) :
    ∃ version, Written st k version := by
  rcases h.node with hun | ⟨k', version, hw⟩
  · simp [value, hun.node] at hvalue
  · have hk : k' = k := Option.some.inj (hw.value.symm.trans hvalue)
    exact ⟨version, hk ▸ hw⟩

def AtLeast (k : Nat) (st : Counter) : Prop := ∃ k' version, k ≤ k' ∧ Written st k' version

theorem AtLeast.step (h : AtLeast k st)
    (hbelow : Below st act) (hstep : step st act = some st') : AtLeast k st' := by
  obtain ⟨k', version, hle, hw⟩ := h
  obtain ⟨k'', version', hle', hw'⟩ := hw.effect (step_effect hstep hbelow)
  exact ⟨k'', version', hle.trans hle', hw'⟩

/-- Whatever the callers do, the ranges returned are apart and lie in the range
for allocations, and the counter only grows from then on. -/
theorem returned_ranges_apart {st : Counter} (hreach : Reaches step Below initial st) :
    (st.returned.Pairwise fun q r => ¬ Overlap q r) ∧
      (∀ r ∈ st.returned, allocatableRangeStart ≤ r.1) ∧
      ∀ st' k, Reaches step Below st st' → st.value = some k →
        ∃ k', st'.value = some k' ∧ k ≤ k' := by
  have hinv : Inv st := hreach.invariant (fun _ _ _ h => h.step) initial_inv
  refine ⟨hinv.apart, ?_, ?_⟩
  · intro r hr
    rcases hinv.node with hun | ⟨k, version, hw⟩
    · rw [hun.ranges] at hr
      cases hr
    · exact (hw.ranges r hr).1
  · intro st' k hreach' hvalue
    obtain ⟨version, hw⟩ := hinv.written hvalue
    have hstart : AtLeast k st := ⟨k, version, le_rfl, hw⟩
    obtain ⟨k', version', hle, hw'⟩ := hreach'.invariant (fun _ _ _ h => h.step) hstart
    exact ⟨k', hw'.value, hle⟩

/-- Two servers: both find no node and create it, one write goes unreported, and
one caller's version is out of date. -/
def raceForAddresses : List Action :=
  [.exists 0 false, .exists 1 false, .create 0 .answered, .create 1 .answered,
    .call 0 4096, .call 1 8192, .get 0 false, .get 1 false, .set 1 .unreported,
    .set 0 .answered, .get 0 false, .set 0 .answered, .get 1 false, .set 1 .answered]

theorem returned_ranges_apart_race :
    ∃ st, Reaches step Below initial st ∧
      st.returned = [(allocatableRangeStart + 8192, 4096), (allocatableRangeStart + 12288, 8192)] ∧
      st.returned.Pairwise fun q r => ¬ Overlap q r := by
  have hrun : (checkedRun step Below initial raceForAddresses).map Counter.returned =
      some [(allocatableRangeStart + 8192, 4096), (allocatableRangeStart + 12288, 8192)] := by
    decide +kernel
  obtain ⟨st, hreach, hreturned⟩ := reaches_of_map_checkedRun hrun
  exact ⟨st, hreach, hreturned, (returned_ranges_apart hreach).1⟩

end Counter

end RdmaMigration.Coordinator
