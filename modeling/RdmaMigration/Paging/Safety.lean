import RdmaMigration.Paging.Turns

/-! # No page is pulled twice

The invariant ties three things together for every page: its entry in the page
table, the one job that may hold it, and the protection of its bytes. Jobs are
constrained only by the order of their operations (`WellOrdered`), so the three
pull paths share one argument although they update state, protection and
counters in three different orders.
-/

namespace RdmaMigration.Paging

open Lib Function

/-! ## The order of the operations of a job -/

/-- The read is posted before it is awaited, the entry is stored once and only
after the read has completed, and protection is lifted only after that as well. -/
def WellOrdered : List Atomic → Prop
  | [] => True
  | .post :: rest =>
      .post ∉ rest ∧ .await ∈ rest ∧ .store ∈ rest ∧ WellOrdered rest
  | .await :: rest =>
      .post ∉ rest ∧ .await ∉ rest ∧ .store ∈ rest ∧ WellOrdered rest
  | .store :: rest =>
      .post ∉ rest ∧ .await ∉ rest ∧ .store ∉ rest ∧ WellOrdered rest
  | _ :: rest => .post ∉ rest ∧ .await ∉ rest ∧ WellOrdered rest

theorem sigsegvAdvance_wellOrdered : WellOrdered sigsegvAdvance := by
  simp [sigsegvAdvance, WellOrdered]

theorem pullPage_wellOrdered : WellOrdered pullPage := by
  simp [pullPage, markPageLocal, WellOrdered]

theorem pullPageAsync_wellOrdered (l : Nat) : WellOrdered (pullPageAsync l) := by
  simp [pullPageAsync, markPageLocalCB, WellOrdered]

theorem WellOrdered.tail {op : Atomic} {rest : List Atomic} (h : WellOrdered (op :: rest)) :
    WellOrdered rest := by
  cases op with
  | post | await | store => exact h.2.2.2
  | protect | count | release l => exact h.2.2

variable {ops : List Atomic} {p : Pages} {a b start size t : Nat} {x : PageState} {s s' : State}
  {spurious : Bool} {env : Environment}

theorem WellOrdered.awaits (h : WellOrdered ops) (hp : .post ∈ ops) :
    .await ∈ ops := by
  induction ops with
  | nil => simp at hp
  | cons op rest ih =>
      cases op with
      | post => exact List.mem_cons_of_mem _ h.2.1
      | await => exact List.mem_cons_self
      | protect | store | count | release l => simp_all [WellOrdered]

theorem WellOrdered.stores (h : WellOrdered ops) (hp : .await ∈ ops) :
    .store ∈ ops := by
  induction ops with
  | nil => simp at hp
  | cons op rest ih =>
      cases op with
      | post | await => exact List.mem_cons_of_mem _ h.2.2.1
      | protect | store | count | release l => simp_all [WellOrdered]

/-! ## The invariant -/

/-- The index of the table entry that the address overloads use for an address. -/
def entry (p : Pages) (address : Nat) : Nat := toSizeT (p.pageId address)

def entryState (p : Pages) (address : Nat) : Option PageState := p.at? (p.pageId address)

theorem entryState_eq_of_entry_eq (h : entry p a = entry p b) :
    entryState p a = entryState p b := by
  unfold entry at h
  simp [entryState, Pages.at?, h]

theorem entry_ne_of_state {y : PageState} (hxy : x ≠ y)
    (ha : entryState p a = some x) (hb : entryState p b = some y) : entry p a ≠ entry p b := by
  intro heq
  rw [entryState_eq_of_entry_eq heq, hb, Option.some.injEq] at ha
  exact hxy ha.symm

theorem entryState_store_self (y : PageState)
    (h : entryState p a = some x) : entryState (p.store (p.pageId a) y) a = some y :=
  Pages.at?_store_self h y

theorem entryState_store_ne (y : PageState)
    (h : entry p a ≠ entry p b) : entryState (p.store (p.pageId a) y) b = entryState p b :=
  Pages.at?_store_ne h y

theorem IsPage.inside {address : Nat} (hp : IsPage start size address)
    (hal : Aligned start size) (ha : Covers (address, defaultPageSize) a) :
    start ≤ a ∧ a < start + size := by
  have hend := hp.end_le hal
  obtain ⟨k, rfl, -⟩ := hp
  simp only [Covers] at ha
  omega

structure JobInv (start size : Nat) (p : Pages) (posted completed : List (Nat × Nat))
    (accessible : Nat → Bool) (j : Job) : Prop where
  page : IsPage start size j.address
  length : j.size = defaultPageSize
  order : WellOrdered j.ops
  pending : .store ∈ j.ops → entryState p j.address = some .inFlight
  stored : .store ∉ j.ops → entryState p j.address = some .local
  unposted : .post ∈ j.ops → ∀ r ∈ posted, entry p r.1 ≠ entry p j.address
  arrived : .await ∉ j.ops → (j.address, defaultPageSize) ∈ completed
  fetched : .post ∉ j.ops → (j.address, defaultPageSize) ∈ posted
  closed : .await ∈ j.ops → ∀ a, Covers (j.address, defaultPageSize) a → accessible a = false

def ControlInv (start size : Nat) (p : Pages) : Control → Prop
  | .idle | .working none => True
  | .faulted address length => IsPage start size address ∧ length = defaultPageSize
  | .copying _ copy => copy.length ≤ p.pages.length
  | .scanning _ copy _ | .working (some (copy, _)) => copy.length ≤ p.pages.length
  | .limiting copy id | .adding copy id | .claiming _ copy id | .posting copy id =>
      copy.length ≤ p.pages.length ∧ id < copy.length

theorem ControlInv.congr {p' : Pages} {c : Control}
    (h : ControlInv start size p c) (hlen : p'.pages.length = p.pages.length) :
    ControlInv start size p' c := by
  cases c with
  | working next =>
      cases next with
      | none => trivial
      | some resumeAt => simpa [ControlInv, hlen] using h
  | idle | faulted => exact h
  | copying | scanning | limiting | adding | claiming | posting =>
      simpa [ControlInv, hlen] using h

structure Inv (start size : Nat) (s : State) : Prop where
  geometry : Geometry start size s.pages
  control : ∀ t, ControlInv start size s.pages (s.control t)
  job : ∀ t j, s.job t = some j →
    JobInv start size s.pages s.posted s.completed s.accessible j
  unique : ∀ t u j k, t ≠ u → s.job t = some j → s.job u = some k →
    .store ∈ j.ops → .store ∈ k.ops → entry s.pages j.address ≠ entry s.pages k.address
  postedPage : ∀ r ∈ s.posted, IsPage start size r.1 ∧ r.2 = defaultPageSize
  postedState : ∀ r ∈ s.posted, entryState s.pages r.1 ≠ some .remote
  postedOnce : (s.posted.map fun r => entry s.pages r.1).Nodup
  completed : ∀ r ∈ s.completed, r ∈ s.posted
  accessible : ∀ a, start ≤ a → a < start + size → s.accessible a = true →
    ∃ r ∈ s.completed, Covers r a
  written : ∀ a, s.written a = true → start ≤ a ∧ a < start + size ∧ s.accessible a = true

theorem initial_inv (hal : Aligned start size) {memory : Nat → UInt8}
    {accessible : Nat → Bool} {limiter : Nat → Int} {s : State}
    (h : onTransfer start size memory accessible limiter = some s) : Inv start size s := by
  simp only [onTransfer, Option.bind_eq_bind, Option.bind_eq_some_iff, Option.pure_def,
    Option.some.injEq] at h
  obtain ⟨pages, hpages, acc, hacc, rfl⟩ := h
  obtain ⟨hgeo, -⟩ := construct_geometry hal hpages
  refine ⟨hgeo, ?_, ?_, ?_, ?_, ?_, ?_, ?_, ?_, ?_⟩
  · intro t; trivial
  · intro t j hj; simp at hj
  · intro t u j k _ hj; simp at hj
  · intro r hr; simp at hr
  · intro r hr; simp at hr
  · simp
  · intro r hr; simp at hr
  · intro a ha hb hopen
    have hsize : 4096 * ((size + 4095) / 4096) = size := by
      obtain ⟨m, hm⟩ := hal.size_dvd
      unfold defaultPageSize at hm
      omega
    unfold mprotect at hacc
    split at hacc
    · rw [hsize, Option.some.injEq] at hacc
      subst hacc
      simp [Covers, ha, hb] at hopen
    · simp at hacc
  · intro a ha; simp at ha

/-! ## One step -/

theorem Inv.setControl (hi : Inv start size s) (t : Nat)
    {c : Control} (hc : ControlInv start size s.pages c) : Inv start size (s.setControl t c) := by
  refine { hi with control := ?_ }
  intro u
  by_cases hu : u = t
  · subst hu
    simpa [State.setControl] using hc
  · simpa [State.setControl, hu] using hi.control u

/-- A winning claim starts from an entry that no job and no posted read uses. -/
theorem Inv.claim (hal : Aligned start size) {s s' : State} (hi : Inv start size s)
    {t address length : Nat} {ops : List Atomic} {won lost : Control} {spurious : Bool}
    (h : claim s t address length ops won lost spurious = some s')
    (hpage : IsPage start size address) (hlength : length = defaultPageSize)
    (horder : WellOrdered ops) (hpost : .post ∈ ops)
    (hwon : ControlInv start size s.pages won) (hlost : ControlInv start size s.pages lost) :
    Inv start size s' := by
  rcases claim_cases h with ⟨hremote, rfl⟩ | rfl
  · subst hlength
    have hawait := horder.awaits hpost
    have hstore := horder.stores hawait
    have hfresh : ∀ b, entryState s.pages b ≠ some .remote →
        entry s.pages address ≠ entry s.pages b := by
      intro b hb heq
      exact hb ((entryState_eq_of_entry_eq heq).symm.trans hremote)
    have hjobFresh : ∀ u j, s.job u = some j → entry s.pages address ≠ entry s.pages j.address := by
      intro u j hj
      apply hfresh
      have hinv := hi.job u j hj
      by_cases hst : .store ∈ j.ops
      · simp [hinv.pending hst]
      · simp [hinv.stored hst]
    have hkeep : ∀ b, entry s.pages address ≠ entry s.pages b →
        entryState (s.pages.store (s.pages.pageId address) .inFlight) b = entryState s.pages b :=
      fun b hb => entryState_store_ne _ hb
    have hnew : JobInv start size (s.pages.store (s.pages.pageId address) .inFlight) s.posted
        s.completed s.accessible ⟨address, defaultPageSize, ops⟩ := by
      refine ⟨hpage, rfl, horder, ?_, ?_, ?_, ?_, ?_, ?_⟩
      · intro _; exact entryState_store_self _ hremote
      · intro hn; exact absurd hstore hn
      · intro _ r hr heq; exact hfresh r.1 (hi.postedState r hr) heq.symm
      · intro hn; exact absurd hawait hn
      · intro hn; exact absurd hpost hn
      · intro _ a ha
        by_contra hopen
        have hlo := hpage.inside hal ha
        obtain ⟨r, hr, hra⟩ := hi.accessible a hlo.1 hlo.2 (by simpa using hopen)
        have hrp := hi.completed r hr
        obtain ⟨hrpage, hrlen⟩ := hi.postedPage r hrp
        have heq : address = r.1 := hpage.eq_of_mem hrpage ha (by
          unfold Covers at hra
          rwa [hrlen] at hra)
        exact hfresh r.1 (hi.postedState r hrp) (by rw [heq])
    refine ⟨hi.geometry.store _ _, ?_, ?_, ?_, hi.postedPage, ?_, hi.postedOnce, hi.completed,
      hi.accessible, hi.written⟩
    · intro u
      have hlen : (takePage s t address defaultPageSize ops won).pages.pages.length =
          s.pages.pages.length := by simp [takePage, Pages.store]
      by_cases hu : u = t
      · subst hu
        simpa [takePage] using hwon.congr hlen
      · simpa [takePage, hu] using (hi.control u).congr hlen
    · intro u j hj
      dsimp only [takePage] at hj
      rcases update_eq_some hj with ⟨rfl, hnewJob⟩ | ⟨-, hj⟩
      · cases hnewJob
        exact hnew
      · have hinv := hi.job u j hj
        have hne := hkeep j.address (hjobFresh u j hj)
        exact ⟨hinv.page, hinv.length, hinv.order, fun h => hne.trans (hinv.pending h),
          fun h => hne.trans (hinv.stored h), hinv.unposted, hinv.arrived, hinv.fetched,
          hinv.closed⟩
    · intro u v j k huv hj hk hsj hsk
      dsimp only [takePage] at hj hk
      rcases update_eq_some hj with ⟨rfl, hnewJob⟩ | ⟨-, hjOld⟩
      · cases hnewJob
        rcases update_eq_some hk with ⟨rfl, -⟩ | ⟨-, hkOld⟩
        · exact absurd rfl huv
        · exact hjobFresh v k hkOld
      · rcases update_eq_some hk with ⟨rfl, hnewJob⟩ | ⟨-, hkOld⟩
        · cases hnewJob
          exact fun heq => hjobFresh u j hjOld heq.symm
        · exact hi.unique u v j k huv hjOld hkOld hsj hsk
    · intro r hr
      have hst := hi.postedState r hr
      have hne := hkeep r.1 (hfresh r.1 hst)
      exact fun h => hst (hne ▸ h)
  · exact hi.setControl t hlost

def Moves (old jobs : Nat → Option Job) (t slot : Nat) (new : Job) : Prop :=
  ∀ u j, jobs u = some j → (u = slot ∧ j = new) ∨ (u ≠ slot ∧ u ≠ t ∧ old u = some j)

theorem moves_update (old : Nat → Option Job) (t : Nat) (new : Job) :
    Moves old (update old t (some new)) t t new := by
  intro u j hj
  rcases update_eq_some hj with ⟨hu, hnew⟩ | ⟨hu, hold⟩
  · exact .inl ⟨hu, (Option.some.inj hnew).symm⟩
  · exact .inr ⟨hu, hu, hold⟩

theorem moves_update_slot (old : Nat → Option Job) (t slot : Nat) (new : Job) :
    Moves old (update (update old t none) slot (some new)) t slot new := by
  intro u j hj
  rcases update_eq_some hj with ⟨hu, hnew⟩ | ⟨hu, hold⟩
  · exact .inl ⟨hu, (Option.some.inj hnew).symm⟩
  · rcases update_eq_some hold with ⟨-, hnone⟩ | ⟨ht, hold⟩
    · simp at hnone
    · exact .inr ⟨hu, ht, hold⟩

section Advance

variable {start size : Nat} {s : State} {t slot address length : Nat} {op : Atomic}
  {rest : List Atomic} {jobs : Nat → Option Job}

theorem Inv.unique_of_moves (hi : Inv start size s)
    (hjob : s.job t = some ⟨address, length, op :: rest⟩)
    (hm : Moves s.job jobs t slot ⟨address, length, rest⟩) :
    ∀ u v j k, u ≠ v → jobs u = some j → jobs v = some k →
      .store ∈ j.ops → .store ∈ k.ops → entry s.pages j.address ≠ entry s.pages k.address := by
  intro u v j k huv hj hk hsj hsk
  rcases hm u j hj with ⟨hu, rfl⟩ | ⟨hu, hut, hjOld⟩
  · rcases hm v k hk with ⟨hv, -⟩ | ⟨-, hvt, hkOld⟩
    · exact absurd (hu.trans hv.symm) huv
    · exact hi.unique t v ⟨address, length, op :: rest⟩ k (Ne.symm hvt) hjob hkOld
        (List.mem_cons_of_mem _ hsj) hsk
  · rcases hm v k hk with ⟨-, rfl⟩ | ⟨-, -, hkOld⟩
    · exact hi.unique u t j ⟨address, length, op :: rest⟩ hut hjOld hjob hsj
        (List.mem_cons_of_mem _ hsk)
    · exact hi.unique u v j k huv hjOld hkOld hsj hsk

theorem Inv.post (hi : Inv start size s) (hjob : s.job t = some ⟨address, length, .post :: rest⟩)
    (hm : Moves s.job jobs t slot ⟨address, length, rest⟩) :
    Inv start size { s with job := jobs, posted := (address, length) :: s.posted } := by
  have hold := hi.job t _ hjob
  obtain ⟨hpost, hawait, hstore, hrest⟩ := hold.order
  have hfresh := hold.unposted List.mem_cons_self
  have hlength : length = defaultPageSize := hold.length
  have hinFlight := hold.pending (List.mem_cons_of_mem _ hstore)
  refine { hi with
    job := ?_, unique := hi.unique_of_moves hjob hm, postedPage := ?_, postedState := ?_,
    postedOnce := ?_, completed := ?_ }
  · intro u j hj
    rcases hm u j hj with ⟨-, rfl⟩ | ⟨-, hut, hjOld⟩
    · refine ⟨hold.page, hold.length, hrest, fun _ => hinFlight, fun h => absurd hstore h,
        fun h => absurd h hpost, fun h => absurd hawait h, fun _ => ?_, ?_⟩
      · rw [hlength]; exact List.mem_cons_self
      · exact fun _ => hold.closed (List.mem_cons_of_mem _ hawait)
    · have hinv := hi.job u j hjOld
      refine { hinv with unposted := ?_, fetched := ?_ }
      · intro hp r hr
        rcases List.mem_cons.mp hr with rfl | hr
        · exact hi.unique t u ⟨address, length, .post :: rest⟩ j (Ne.symm hut) hjob hjOld
            (List.mem_cons_of_mem _ hstore) (hinv.order.stores (hinv.order.awaits hp))
        · exact hinv.unposted hp r hr
      · exact fun hp => List.mem_cons_of_mem _ (hinv.fetched hp)
  · intro r hr
    rcases List.mem_cons.mp hr with rfl | hr
    · exact ⟨hold.page, hlength⟩
    · exact hi.postedPage r hr
  · intro r hr
    rcases List.mem_cons.mp hr with rfl | hr
    · simp [hinFlight]
    · exact hi.postedState r hr
  · rw [List.map_cons, List.nodup_cons]
    refine ⟨?_, hi.postedOnce⟩
    intro hmem
    obtain ⟨r, hr, heq⟩ := List.mem_map.mp hmem
    exact hfresh r hr heq
  · exact fun r hr => List.mem_cons_of_mem _ (hi.completed r hr)

theorem Inv.complete (hi : Inv start size s)
    (hjob : s.job t = some ⟨address, length, .await :: rest⟩)
    (hm : Moves s.job jobs t slot ⟨address, length, rest⟩) (memory : Nat → UInt8) :
    Inv start size { s with
      job := jobs, memory := memory, completed := (address, length) :: s.completed } := by
  have hold := hi.job t _ hjob
  obtain ⟨hpost, hawait, hstore, hrest⟩ := hold.order
  have hlength : length = defaultPageSize := hold.length
  have hposted : (address, defaultPageSize) ∈ s.posted :=
    hold.fetched (by simp [hpost])
  refine { hi with
    job := ?_, unique := hi.unique_of_moves hjob hm, completed := ?_, accessible := ?_ }
  · intro u j hj
    rcases hm u j hj with ⟨-, rfl⟩ | ⟨-, -, hjOld⟩
    · refine ⟨hold.page, hold.length, hrest,
        fun _ => hold.pending (List.mem_cons_of_mem _ hstore), fun h => absurd hstore h,
        fun h => absurd h hpost, fun _ => ?_, fun _ => hposted, fun h => absurd h hawait⟩
      rw [hlength]; exact List.mem_cons_self
    · have hinv := hi.job u j hjOld
      exact { hinv with arrived := fun h => List.mem_cons_of_mem _ (hinv.arrived h) }
  · intro r hr
    rcases List.mem_cons.mp hr with rfl | hr
    · rw [hlength]; exact hposted
    · exact hi.completed r hr
  · intro a ha hb hopen
    obtain ⟨r, hr, hra⟩ := hi.accessible a ha hb hopen
    exact ⟨r, List.mem_cons_of_mem _ hr, hra⟩

/-- Lifting the protection of a page whose read has completed. A page whose read
is still outstanding is another page, since its entry is another entry. -/
theorem Inv.protect (hi : Inv start size s)
    (hjob : s.job t = some ⟨address, length, .protect :: rest⟩)
    (hm : Moves s.job jobs t slot ⟨address, length, rest⟩) {accessible : Nat → Bool}
    (hacc : mprotect address length true s.accessible = some accessible) :
    Inv start size { s with job := jobs, accessible := accessible } := by
  have hold := hi.job t _ hjob
  obtain ⟨hpost, hawait, hrest⟩ := hold.order
  have hlength : length = defaultPageSize := hold.length
  have harrived : (address, defaultPageSize) ∈ s.completed := hold.arrived (by simp [hawait])
  have hacc' : accessible = fun a => if Covers (address, defaultPageSize) a then true
      else s.accessible a := by
    unfold mprotect at hacc
    split at hacc
    · rw [hlength] at hacc
      exact (Option.some.inj hacc).symm
    · simp at hacc
  subst hacc'
  refine { hi with
    job := ?_, unique := hi.unique_of_moves hjob hm, accessible := ?_, written := ?_ }
  · intro u j hj
    rcases hm u j hj with ⟨-, rfl⟩ | ⟨-, hut, hjOld⟩
    · refine ⟨hold.page, hold.length, hrest, fun h => hold.pending (List.mem_cons_of_mem _ h),
        fun h => hold.stored (by simp [h]), fun h => absurd h hpost, fun _ => harrived,
        fun _ => hold.fetched (by simp [hpost]), fun h => absurd h hawait⟩
    · have hinv := hi.job u j hjOld
      refine { hinv with closed := ?_ }
      intro haw a ha
      have hst := hinv.order.stores haw
      have hne : entry s.pages address ≠ entry s.pages j.address := by
        by_cases hs : .store ∈ rest
        · exact hi.unique t u ⟨address, length, .protect :: rest⟩ j (Ne.symm hut) hjob hjOld
            (List.mem_cons_of_mem _ hs) hst
        · have hlocal := hold.stored (by simp [hs])
          exact entry_ne_of_state (by decide) hlocal (hinv.pending hst)
      have hcov : ¬ Covers (address, defaultPageSize) a := by
        intro hc
        have heq : address = j.address := hold.page.eq_of_mem hinv.page hc ha
        exact hne (by rw [heq])
      simpa [hcov] using hinv.closed haw a ha
  · intro a ha hb hopen
    by_cases hc : Covers (address, defaultPageSize) a
    · exact ⟨_, harrived, hc⟩
    · exact hi.accessible a ha hb (by simpa [hc] using hopen)
  · intro a ha
    obtain ⟨hlo, hhi, hopen⟩ := hi.written a ha
    exact ⟨hlo, hhi, by simp [hopen]⟩

theorem Inv.store (hi : Inv start size s) (hjob : s.job t = some ⟨address, length, .store :: rest⟩)
    (hm : Moves s.job jobs t slot ⟨address, length, rest⟩) :
    Inv start size { s with
      job := jobs, pages := s.pages.store (s.pages.pageId address) .local } := by
  have hold := hi.job t _ hjob
  obtain ⟨hpost, hawait, hstore, hrest⟩ := hold.order
  have hinFlight := hold.pending List.mem_cons_self
  have hself : entryState (s.pages.store (s.pages.pageId address) .local) address = some .local :=
    entryState_store_self _ hinFlight
  refine { hi with
    geometry := hi.geometry.store _ _, control := ?_, job := ?_,
    unique := hi.unique_of_moves hjob hm, postedState := ?_ }
  · intro u
    exact (hi.control u).congr (by simp [Pages.store])
  · intro u j hj
    rcases hm u j hj with ⟨-, rfl⟩ | ⟨-, hut, hjOld⟩
    · exact ⟨hold.page, hold.length, hrest, fun h => absurd h hstore, fun _ => hself,
        fun h => absurd h hpost, fun _ => hold.arrived (by simp [hawait]),
        fun _ => hold.fetched (by simp [hpost]), fun h => absurd h hawait⟩
    · have hinv := hi.job u j hjOld
      refine { hinv with pending := ?_, stored := ?_ }
      · intro hst
        have hne := hi.unique t u ⟨address, length, .store :: rest⟩ j (Ne.symm hut) hjob hjOld
          List.mem_cons_self hst
        rw [← hinv.pending hst]
        exact entryState_store_ne _ hne
      · intro hst
        have hne := entry_ne_of_state (by decide) hinFlight (hinv.stored hst)
        rw [← hinv.stored hst]
        exact entryState_store_ne _ hne
  · intro r hr
    by_cases hne : entry s.pages address = entry s.pages r.1
    · rw [← entryState_eq_of_entry_eq (p := s.pages.store _ _) hne, hself]
      simp
    · rw [entryState_store_ne _ hne]
      exact hi.postedState r hr

theorem Inv.counter (hi : Inv start size s) (hjob : s.job t = some ⟨address, length, op :: rest⟩)
    (hm : Moves s.job jobs t slot ⟨address, length, rest⟩)
    (hop : op ≠ .store) (hpost : .post ∉ op :: rest) (hawait : .await ∉ op :: rest)
    (localPages : Int) (limiter : Nat → Int) :
    Inv start size { s with
      job := jobs, pages := { s.pages with localPages := localPages }, limiter := limiter } := by
  have hold := hi.job t _ hjob
  have hstore : .store ∈ op :: rest ↔ .store ∈ rest := by
    simp [Ne.symm hop]
  refine { hi with
    geometry := ⟨hi.geometry.startAddress, hi.geometry.endAddress, hi.geometry.memorySize,
      hi.geometry.pageSize, hi.geometry.fits⟩
    control := fun u => (hi.control u).congr rfl
    job := ?_
    unique := hi.unique_of_moves hjob hm }
  intro u j hj
  rcases hm u j hj with ⟨-, rfl⟩ | ⟨-, -, hjOld⟩
  · exact ⟨hold.page, hold.length, hold.order.tail, fun h => hold.pending (hstore.mpr h),
      fun h => hold.stored (fun h' => h (hstore.mp h')),
      fun h => absurd (List.mem_cons_of_mem _ h) hpost, fun _ => hold.arrived hawait,
      fun _ => hold.fetched hpost, fun h => absurd (List.mem_cons_of_mem _ h) hawait⟩
  · have hinv := hi.job u j hjOld
    exact ⟨hinv.page, hinv.length, hinv.order, hinv.pending, hinv.stored, hinv.unposted,
      hinv.arrived, hinv.fetched, hinv.closed⟩

end Advance

theorem Inv.dropJob (hi : Inv start size s) (t : Nat) :
    Inv start size (s.setJob t none) := by
  have hkeep : ∀ u j, (s.setJob t none).job u = some j → s.job u = some j := by
    intro u j hj
    rcases update_eq_some hj with ⟨-, hnone⟩ | ⟨-, hold⟩
    · simp at hnone
    · exact hold
  refine { hi with job := ?_, unique := ?_ }
  · intro u j hj
    exact hi.job u j (hkeep u j hj)
  · intro u v j k huv hj hk
    exact hi.unique u v j k huv (hkeep u j hj) (hkeep v k hk)

theorem ControlInv.resume {c : Control}
    (h : ControlInv start size p c) : ControlInv start size p (resume c) := by
  cases c with
  | working next =>
      cases next with
      | none => trivial
      | some next => exact h
  | idle | faulted | copying | scanning | limiting | adding | claiming | posting => exact h

theorem controlStep_inv (hal : Aligned start size) {env : Environment}
    {s s' : State} {t slot : Nat} {spurious : Bool} (hi : Inv start size s)
    (h : controlStep env s t spurious slot = some s') : Inv start size s' := by
  have hc := hi.control t
  unfold controlStep at h
  split at h
  next => simp at h
  next => simp at h
  next address length heq =>
    rw [heq] at hc
    exact hi.claim hal h hc.1 hc.2 sigsegvAdvance_wellOrdered (by simp [sigsegvAdvance]) trivial
      trivial
  next async copy heq =>
    rw [heq] at hc
    split at h
    next state hstate =>
      cases h
      refine hi.setControl t ?_
      have hlt := (List.getElem?_eq_some_iff.mp hstate).1
      simp only [ControlInv, List.length_append, List.length_singleton]
      omega
    next =>
      cases h
      exact hi.setControl t hc
  next async copy id heq =>
    rw [heq] at hc
    split at h
    next =>
      cases h
      exact hi.setControl t trivial
    next =>
      cases h
      exact hi.setControl t hc
    next state hne hstate =>
      cases h
      have hlt := (List.getElem?_eq_some_iff.mp hstate).1
      refine hi.setControl t ?_
      cases async with
      | true => exact ⟨hc, hlt⟩
      | false => exact ⟨hc, hlt⟩
  next copy id heq =>
    rw [heq] at hc
    split at h
    next =>
      cases h
      exact hi
    next =>
      cases h
      exact hi.setControl t hc
  next copy id heq =>
    rw [heq] at hc
    cases h
    have hnext := hi.setControl t (c := .claiming true copy id) hc
    exact { hnext with }
  next copy id heq =>
    rw [heq] at hc
    obtain ⟨hpage, hlength⟩ :=
      getPageAddressOfId_isPage hal hi.geometry (Nat.lt_of_lt_of_le hc.2 hc.1)
    exact hi.claim hal h hpage hlength pullPage_wellOrdered (by simp [pullPage]) hc.1 hc.1
  next copy id heq =>
    rw [heq] at hc
    obtain ⟨hpage, hlength⟩ :=
      getPageAddressOfId_isPage hal hi.geometry (Nat.lt_of_lt_of_le hc.2 hc.1)
    exact hi.claim hal h hpage hlength (pullPageAsync_wellOrdered t) (by simp [pullPageAsync]) hc
      hc.1
  next copy id heq =>
    rw [heq] at hc
    split at h
    next address length rest hjob =>
      split at h
      · cases h
        have hposted := hi.post hjob (moves_update_slot s.job t slot ⟨address, length, rest⟩)
        exact hposted.setControl t (c := .scanning true copy (id + 1)) hc.1
      · simp at h
    next => simp at h

theorem worked_inv (hi : Inv start size s) (h : Worked s t s') : Inv start size s' := by
  cases h with
  | ends hjob => exact (hi.dropJob t).setControl t (hi.control t).resume
  | post hjob => exact hi.post hjob (moves_update s.job _ _)
  | protect hjob hopens => exact hi.protect hjob (moves_update s.job _ _) hopens
  | store hjob => exact hi.store hjob (moves_update s.job _ _)
  | count hjob | release hjob =>
      have horder := (hi.job t _ hjob).order
      exact hi.counter hjob (moves_update s.job _ _) (by simp) (by simp [horder.1])
        (by simp [horder.2.1]) _ _

theorem step_inv (hal : Aligned start size) {env : Environment}
    {s s' : State} {a : Action} (hi : Inv start size s) (h : step env s a = some s') :
    Inv start size s' := by
  cases step_stepped h with
  | fault hfree ha =>
      rw [State.Inside, hi.geometry.startAddress, hi.geometry.memorySize] at ha
      obtain ⟨hpage, hlength, -⟩ := getPageAddress_isPage hal hi.geometry ha.1 ha.2
      exact hi.setControl _ ⟨hpage, hlength⟩
  | start => exact hi.setControl _ (Nat.zero_le _)
  | control => exact controlStep_inv hal hi h
  | op _ hworked => exact worked_inv hi hworked
  | land => exact { hi with }
  | complete hjob => exact hi.complete hjob (moves_update s.job _ _) _
  | @write a value ha hopen =>
      rw [State.Inside, hi.geometry.startAddress, hi.geometry.memorySize] at ha
      refine { hi with written := ?_ }
      intro b hb
      by_cases hba : b = a
      · subst hba
        exact ⟨ha.1, ha.2, hopen⟩
      · exact hi.written b (by simpa [hba] using hb)

/-! ## What a step does to page states and to memory -/

def Advances (old new : Option PageState) : Prop :=
  new = old ∨ (old = some .remote ∧ new = some .inFlight) ∨
    (old = some .inFlight ∧ new = some .local)

theorem store_advances {y : PageState} (h : entryState p a = some x)
    (hxy : Advances (some x) (some y)) (k : Nat) :
    Advances p.pages[k]? (p.store (p.pageId a) y).pages[k]? := by
  by_cases hk : toSizeT (p.pageId a) = k
  · have hnew : (p.store (p.pageId a) y).pages[k]? = some y := by
      rw [← hk]
      exact entryState_store_self y h
    have hold : p.pages[k]? = some x := by
      rw [← hk]
      exact h
    rw [hold, hnew]
    exact hxy
  · exact .inl (List.getElem?_set_ne hk)

theorem step_advances {a : Action} (hi : Inv start size s) (h : step env s a = some s') (k : Nat) :
    Advances s.pages.pages[k]? s'.pages.pages[k]? := by
  cases step_stepped h with
  | control hturn =>
      cases hturn with
      | takes _ _ _ _ _ _ hremote => exact store_advances hremote (.inr (.inl ⟨rfl, rfl⟩)) k
      | goes | posts => exact .inl rfl
  | op _ hworked =>
      cases hworked with
      | store hjob =>
          have hinFlight := (hi.job _ _ hjob).pending List.mem_cons_self
          exact store_advances hinFlight (.inr (.inr ⟨rfl, rfl⟩)) k
      | ends | post | protect | count | release => exact .inl rfl
  | fault | start | land | complete | write => exact .inl rfl

theorem Inv.not_written (hi : Inv start size s) {t address length : Nat} {rest : List Atomic}
    (hjob : s.job t = some ⟨address, length, .await :: rest⟩) {a : Nat}
    (ha : Covers (address, length) a) : s.written a = false := by
  have hinv := hi.job t _ hjob
  have hlength : length = defaultPageSize := hinv.length
  rw [hlength] at ha
  have hclosed := hinv.closed List.mem_cons_self a ha
  cases hw : s.written a with
  | false => rfl
  | true =>
      have hopen := (hi.written a hw).2.2
      rw [hclosed] at hopen
      simp at hopen

/-- A thread never touches the bytes itself: only the application and the NIC do. -/
theorem step_keeps_written {act : Action}
    (hi : Inv start size s) (h : step env s act = some s') (hact : ∀ b v, act ≠ .write b v)
    {a : Nat} (ha : s.written a = true) : s'.memory a = s.memory a := by
  cases step_stepped h with
  | fault | start => rfl
  | control hturn => cases hturn <;> rfl
  | op _ hworked => cases hworked <;> rfl
  | write => exact absurd rfl (hact _ _)
  | @land t b _ _ _ hjob hb =>
      have hne : a ≠ b := by
        intro hab
        rw [hab, hi.not_written hjob hb] at ha
        simp at ha
      simp [hne]
  | @complete t address length _ hjob =>
      have hout : ¬ Covers (address, length) a := by
        intro hc
        rw [hi.not_written hjob hc] at ha
        simp at ha
      simp [hout]

/-- The reads of a run fetch every byte at most once. -/
theorem Inv.covered_once (hi : Inv start size s) (a : Nat) :
    (s.posted.filter fun r => Covers r a).length ≤ 1 := by
  have hnodup : (s.posted.map fun r => entry s.pages r.1).Nodup := hi.postedOnce
  have hpages := hi.postedPage
  generalize s.posted = posted at hnodup hpages
  induction posted with
  | nil => simp
  | cons r rest ih =>
      rw [List.map_cons, List.nodup_cons] at hnodup
      have hih := ih hnodup.2 fun q hq => hpages q (List.mem_cons_of_mem _ hq)
      by_cases hr : Covers r a
      · have hempty : rest.filter (fun q => Covers q a) = [] := by
          rw [List.filter_eq_nil_iff]
          intro q hq hqa
          obtain ⟨hrPage, hrLen⟩ := hpages r List.mem_cons_self
          obtain ⟨hqPage, hqLen⟩ := hpages q (List.mem_cons_of_mem _ hq)
          have hqa' : Covers q a := by simpa using hqa
          unfold Covers at hr hqa'
          rw [hrLen] at hr
          rw [hqLen] at hqa'
          have heq := hrPage.eq_of_mem hqPage hr hqa'
          exact hnodup.1 (List.mem_map.mpr ⟨q, hq, by rw [heq]⟩)
        simp [hr, hempty]
      · simpa [hr] using hih

/-- Every state a paged segment can reach. The first and the last part are about
the next step from it, whatever thread or read it belongs to. -/
theorem paging_safe {start size : Nat} (hal : Aligned start size) (env : Environment)
    {memory : Nat → UInt8} {accessible : Nat → Bool} {limiter : Nat → Int} {s₀ s : State}
    (h₀ : onTransfer start size memory accessible limiter = some s₀)
    (h : Reaches (step env) anyAction s₀ s) :
    (∀ act s', step env s act = some s' →
      ∀ k : Nat, Advances s.pages.pages[k]? s'.pages.pages[k]?) ∧
    (∀ r ∈ s.posted, IsPage start size r.1 ∧ r.2 = defaultPageSize) ∧
    (∀ a, (s.posted.filter fun r => Covers r a).length ≤ 1) ∧
    (∀ a, start ≤ a → a < start + size → s.accessible a = true →
      ∃ r ∈ s.completed, r ∈ s.posted ∧ Covers r a) ∧
    (∀ act s', step env s act = some s' → (∀ b v, act ≠ .write b v) →
      ∀ a, s.written a = true → s'.memory a = s.memory a) := by
  have hi : Inv start size s :=
    h.invariant (fun _ _ _ hi _ hstep => step_inv hal hi hstep) (initial_inv hal h₀)
  refine ⟨?_, hi.postedPage, hi.covered_once, ?_, ?_⟩
  · intro act s' hstep k
    exact step_advances hi hstep k
  · intro a hlo hhi hopen
    obtain ⟨r, hr, hra⟩ := hi.accessible a hlo hhi hopen
    exact ⟨r, hr, hi.completed r hr, hra⟩
  · intro act s' hstep hact a ha
    exact step_keeps_written hi hstep hact ha

/-- Two pages at `0x1000`: a thread faults on the first one and pulls it while another
thread runs the asynchronous pull; afterwards the first page is open. -/
theorem paging_safe_two_pages : ∃ s₀ s,
    onTransfer 4096 8192 (fun _ => 0) (fun _ => true) (fun _ => 0) = some s₀ ∧
    Reaches (step ⟨fun _ => 7, 1⟩) anyAction s₀ s ∧ s.accessible 4096 = true ∧
    ∃ r ∈ s.completed, r ∈ s.posted ∧ Covers r 4096 := by
  let acts : List Action := [.fault 0 5000, .start 1 true, .control 0 false 0, .op 0,
    .control 1 false 2, .control 1 false 2, .complete 0, .op 0, .op 0, .op 0]
  have hrun : ((onTransfer 4096 8192 (fun _ => 0) (fun _ => true) (fun _ => 0)).bind fun s₀ =>
      run (step ⟨fun _ => 7, 1⟩) s₀ acts).map (fun s => s.accessible 4096) = some true := by
    decide +kernel
  obtain ⟨s, hs, hopen⟩ := Option.map_eq_some_iff.mp hrun
  obtain ⟨s₀, h₀, hacts⟩ := Option.bind_eq_some_iff.mp hs
  have hreach := reaches_of_run hacts
  have hal : Aligned 4096 8192 := ⟨by decide, by decide, by decide⟩
  exact ⟨s₀, s, h₀, hreach, hopen,
    (paging_safe hal _ h₀ hreach).2.2.2.1 4096 (by decide) (by decide) hopen⟩

end RdmaMigration.Paging
