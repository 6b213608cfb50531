import RdmaMigration.Migration.Handover

/-! # The segment protocol over all servers

Every step is taken by one server, concerns at most one other, and changes the
standing of the first only. The invariant of the protocol is that of each pair,
so a step has to be checked on the pair it concerns; for every other server it is
enough that the new standing is no news to it.
-/

namespace RdmaMigration.Migration

variable {ι : Type}

/-- Nothing changes but the standing of `i` and what is between `i` and `j`. -/
structure Frame (σ σ' : Segment ι) (i j : ι) : Prop where
  stage : ∀ x, x ≠ i → σ'.stage x = σ.stage x
  link : ∀ x y, (x, y) ≠ (i, j) → (x, y) ≠ (j, i) → σ'.queue x y = σ.queue x y ∧
    σ'.pending x y = σ.pending x y ∧ σ'.registered x y = σ.registered x y

/-- What `x` can tell about the standing of another server. -/
structure SameFor (x : ι) (stage stage' : Stage ι) : Prop where
  given : ∀ size, (∃ prepared, stage' = .given size x prepared) ↔
    ∃ prepared, stage = .given size x prepared
  prepared : x ∈ stage'.prepared → x ∈ stage.prepared ∧ stage'.size = stage.size
  accepted : ∀ size, stage' = .accepted size x ↔ stage = .accepted size x

theorem SameFor.refl (x : ι) (stage : Stage ι) : SameFor x stage stage :=
  ⟨fun _ => Iff.rfl, fun hx => ⟨hx, rfl⟩, fun _ => Iff.rfl⟩

section Frame

variable {σ σ' : Segment ι} {i j : ι}

theorem Frame.outside (hf : Frame σ σ' i j) {x y : ι} (hx : x ≠ i) (hy : y ≠ i) :
    σ'.link x y = σ.link x y := by
  obtain ⟨hq, hp, hr⟩ := hf.link x y (by simp [hx]) (by simp [hy])
  obtain ⟨hq', hp', hr'⟩ := hf.link y x (by simp [hy]) (by simp [hx])
  simp only [Segment.link, hf.stage x hx, hf.stage y hy, hq, hq', hp, hp', hr, hr']

theorem Frame.beside (hf : Frame σ σ' i j) {x : ι} (hxi : x ≠ i) (hxj : x ≠ j) :
    σ'.link i x = { σ.link i x with here := σ'.stage i } := by
  obtain ⟨hq, hp, hr⟩ := hf.link i x (by simp [hxj]) (by simp [hxi])
  obtain ⟨hq', hp', hr'⟩ := hf.link x i (by simp [hxi]) (by simp [hxj])
  simp only [Segment.link, hf.stage x hxi, hq, hq', hp, hp', hr, hr']

variable [DecidableEq ι]

def Segment.Inv (σ : Segment ι) : Prop := ∀ s d, s ≠ d → LinkInv s d (σ.link s d)

theorem Segment.Inv.both (h : σ.Inv) (hne : i ≠ j) : LinkInvs i j (σ.link i j) :=
  ⟨h i j hne, h j i hne.symm⟩

/-- The new standing of `i` says nothing new to the servers the step does not concern. -/
theorem Segment.Inv.of_frame (h : σ.Inv) (hf : Frame σ σ' i j)
    (hlink : i ≠ j → LinkInvs i j (σ'.link i j))
    (hsame : ∀ x, x ≠ i → x ≠ j → SameFor x (σ.stage i) (σ'.stage i)) : σ'.Inv := by
  have hbeside : ∀ x, x ≠ i → LinkInvs i x (σ'.link i x) := by
    intro x hxi
    by_cases hxj : x = j
    · rw [hxj]
      exact hlink fun hij => hxi (hxj.trans hij.symm)
    · have hs := hsame x hxi hxj
      rw [hf.beside hxi hxj]
      exact ⟨(h i x hxi.symm).here_changed hs.given hs.prepared,
        (h x i hxi).there_changed hs.accepted fun ⟨n, hn⟩ => ⟨n, (hs.given n).mpr hn⟩⟩
  intro s d hne
  by_cases hs : s = i
  · rw [hs] at hne ⊢
    exact (hbeside d hne.symm).1
  · by_cases hd : d = i
    · rw [hd]
      exact (hbeside s hs).2
    · rw [hf.outside hs hd]
      exact h s d hne

theorem Segment.Inv.of_link (h : σ.Inv) (hf : Frame σ σ' i j) {l : Link ι}
    (hlink : σ'.link i j = l) (hl : LinkInvs i j l)
    (hsame : ∀ x, x ≠ j → SameFor x (σ.stage i) l.here) : σ'.Inv := by
  subst hlink
  exact h.of_frame hf (fun _ => hl) fun x _ hx => hsame x hx

end Frame

/-! ## The steps -/

variable [DecidableEq ι]

inductive Step (σ σ' : Segment ι) : Prop where
  | acquire (i : ι) (size : Nat) (hframe : Frame σ σ' i i) (hstage : σ.stage i = .absent)
      (hheld : σ'.stage i = .held size [])
  | release (i : ι) (size : Nat) (prepared : List ι) (hframe : Frame σ σ' i i)
      (hstage : σ.stage i = .held size prepared) (habsent : σ'.stage i = .absent)
  | prepare (s d : ι) (size : Nat) (prepared : List ι) (hne : s ≠ d) (hframe : Frame σ σ' s d)
      (hstage : σ.stage s = .held size prepared)
      (hlink : σ'.link s d = { σ.link s d with
        here := .held size (d :: prepared)
        out := (σ.link s d).out ++ [.prepare size]
        mine := some size })
  | transfer (s d : ι) (size : Nat) (prepared : List ι) (hne : s ≠ d) (hframe : Frame σ σ' s d)
      (hstage : σ.stage s = .held size prepared) (hd : d ∈ prepared)
      (hlink : σ'.link s d = { σ.link s d with
        here := .given size d (prepared.filter (· ≠ d))
        out := (σ.link s d).out ++ [.transfer size] })
  | close (d s : ι) (hne : d ≠ s) (hframe : Frame σ σ' d s) (hpending : σ.pending d s = true)
      (hlink : σ'.link d s = { σ.link d s with
        owing := false
        mine := none
        out := (σ.link d s).out ++ [.done] })
  | accept (d s : ι) (size : Nat) (rest : List Msg) (hne : d ≠ s) (hframe : Frame σ σ' d s)
      (hstage : σ.stage d = .absent) (hqueue : σ.queue s d = .prepare size :: rest)
      (hlink : σ'.link d s = { σ.link d s with
        here := .accepted size s
        back := rest
        out := (σ.link d s).out ++ [.accept]
        mine := some size })
  | receive (d s : ι) (size : Nat) (rest : List Msg) (hne : d ≠ s) (hframe : Frame σ σ' d s)
      (hqueue : σ.queue s d = .transfer size :: rest)
      (hlink : σ'.link d s = { σ.link d s with
        here := .held size []
        back := rest
        owing := true })
  | onAccept (s d : ι) (rest : List Msg) (hne : s ≠ d) (hframe : Frame σ σ' s d)
      (hqueue : σ.queue d s = .accept :: rest)
      (hlink : σ'.link s d = { σ.link s d with back := rest })
  | onClose (s d : ι) (size : Nat) (prepared : List ι) (rest : List Msg) (hne : s ≠ d)
      (hframe : Frame σ σ' s d) (hstage : σ.stage s = .given size d prepared)
      (hqueue : σ.queue d s = .done :: rest)
      (hlink : σ'.link s d = { σ.link s d with
        here := .held size prepared
        back := rest
        mine := none })

theorem Segment.Inv.step {σ σ' : Segment ι} (h : σ.Inv) (hstep : Step σ σ') : σ'.Inv := by
  cases hstep with
  | acquire i size hframe hstage hheld =>
      refine h.of_frame hframe (fun hne => absurd rfl hne) fun x _ _ => ?_
      rw [hstage, hheld]
      exact ⟨by simp, by simp [Stage.prepared], by simp⟩
  | release i size prepared hframe hstage habsent =>
      refine h.of_frame hframe (fun hne => absurd rfl hne) fun x _ _ => ?_
      rw [hstage, habsent]
      exact ⟨by simp, by simp [Stage.prepared], by simp⟩
  | prepare s d size prepared hne hframe hstage hlink =>
      refine h.of_link hframe hlink ((h.both hne).prepare hstage) fun x hxd => ?_
      rw [hstage]
      exact ⟨by simp, by simp [Stage.prepared, Stage.size, hxd], by simp⟩
  | transfer s d size prepared hne hframe hstage hd hlink =>
      refine h.of_link hframe hlink ((h.both hne).transfer hstage hd) fun x hxd => ?_
      rw [hstage]
      exact ⟨by simp [hxd.symm], by simp +contextual [Stage.prepared, Stage.size], by simp⟩
  | close d s hne hframe hpending hlink =>
      exact h.of_link hframe hlink ((h.both hne).close hpending) fun x _ => .refl _ _
  | accept d s size rest hne hframe hstage hqueue hlink =>
      refine h.of_link hframe hlink ((h.both hne).accept hstage hqueue) fun x hxs => ?_
      rw [hstage]
      exact ⟨by simp, by simp [Stage.prepared], by simp [hxs.symm]⟩
  | receive d s size rest hne hframe hqueue hlink =>
      have hstage : σ.stage d = .accepted size s := ((h.both hne).transfer_ready hqueue).1
      refine h.of_link hframe hlink ((h.both hne).receive hqueue) fun x hxs => ?_
      rw [hstage]
      exact ⟨by simp, by simp [Stage.prepared], by simp [hxs.symm]⟩
  | onAccept s d rest hne hframe hqueue hlink =>
      exact h.of_link hframe hlink ((h.both hne).onAccept hqueue) fun x _ => .refl _ _
  | onClose s d size prepared rest hne hframe hstage hqueue hlink =>
      refine h.of_link hframe hlink ((h.both hne).onClose hstage hqueue) fun x hxd => ?_
      rw [hstage]
      exact ⟨by simp [hxd.symm], by simp [Stage.prepared, Stage.size], by simp⟩

end RdmaMigration.Migration
