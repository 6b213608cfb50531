import RdmaMigration.Paging.Limiter

/-! # A page is local when its read has completed

What the threads ask the peer for: a thread that has claimed a page asks for the
page it has claimed. As long as no `Pull` fails in a caller that ignores the
result, a thread gets to its store of `Local` only after its read has completed, so
that every local page is covered by a completed read.
-/

namespace RdmaMigration.Paging.Threads

open Lib

/-! ## The pages that are asked for -/

/-- The pages of which every caller asks for all bytes: the ones before the last, and
a last page that is full or at most half full. -/
def AskedWhole (size k : Nat) : Prop :=
  k + 1 < pageCount size defaultPageSize ∨ 2 * (size % defaultPageSize) ≤ defaultPageSize

instance (size k : Nat) : Decidable (AskedWhole size k) := inferInstanceAs (Decidable (_ ∨ _))

def CoversPage (start size k : Nat) (r : Nat × Nat) : Prop :=
  ∀ b, start + defaultPageSize * k ≤ b → b < start + defaultPageSize * k + defaultPageSize →
    b < start + size → Covers r b

/-- The address and size with which a thread asks for a page. The range pulls may also
run past the end of the segment. -/
def Asked (start size address n : Nat) : Prop :=
  ∃ j < 2 ^ 31, address = wrap64 (start + defaultPageSize * j) ∧
    (j < pageCount size defaultPageSize → AskedWhole size j →
      CoversPage start size j (address, n))

theorem pageId_wrap {p : Pages} {start j : Nat} (hstart : start < 2 ^ 64)
    (haddress : p.startAddress = start) (hunit : p.pageSize = defaultPageSize)
    (hj : j < 2 ^ 31) : p.pageId (wrap64 (start + defaultPageSize * j)) = j := by
  have hoffset : sub64 (wrap64 (start + defaultPageSize * j)) start = defaultPageSize * j := by
    unfold sub64 wrap64 defaultPageSize
    omega
  rw [Pages.pageId, haddress, hunit, hoffset, Nat.mul_div_cancel_left _ (by decide),
    toInt32_of_lt hj]

section Layout

variable {start size j : Nat} {p : Pages} (hl : Layout start size defaultPageSize p)

include hl

theorem coversPage_of_id (hj : j < pageCount size defaultPageSize) :
    CoversPage start size j (p.getPageAddressOfId j, p.getPageSizeOfId j) := by
  rw [hl.indexed.getPageAddressOfId_eq hj]
  intro b hlo hhi hend
  refine ⟨hlo, ?_⟩
  dsimp only
  by_cases hinner : j + 1 < pageCount size defaultPageSize
  · rw [hl.indexed.getPageSizeOfId_inner hinner]
    exact hhi
  · have hlast : j + 1 = pageCount size defaultPageSize := by omega
    have hsize := end_of_last hlast
    rw [hl.indexed.getPageSizeOfId_last hlast]
    omega

/-- The address form asks for too little of a last page that is more than half full. -/
theorem coversPage_of_address (hj : j < pageCount size defaultPageSize)
    (hwhole : AskedWhole size j) :
    CoversPage start size j
      (start + defaultPageSize * j, p.getPageSizeAt (start + defaultPageSize * j)) := by
  intro b hlo hhi hend
  refine ⟨hlo, ?_⟩
  dsimp only
  by_cases hinner : j + 1 < pageCount size defaultPageSize
  · rw [hl.getPageSizeAt_inner hinner]
    exact hhi
  · have hlast : j + 1 = pageCount size defaultPageSize := by omega
    have hsize := end_of_last hlast
    have hhalf := hwhole.resolve_left hinner
    rw [hl.getPageSizeAt_last hlast]
    by_cases hfull : size % defaultPageSize = 0
    · rw [if_pos hfull]
      exact hhi
    · rw [if_neg hfull]
      rw [lastSize, if_neg hfull] at hsize ⊢
      omega

theorem asked_of_id (hj : j < pageCount size defaultPageSize) :
    Asked start size (p.getPageAddressOfId j) (p.getPageSizeOfId j) := by
  have hend := hl.page_end_lt hj
  refine ⟨j, Nat.lt_trans hj hl.few, ?_, fun _ _ => coversPage_of_id hl hj⟩
  rw [hl.indexed.getPageAddressOfId_eq hj, wrap64_of_lt (by omega)]

theorem getPageAddress_wrap (hstart : defaultPageSize ∣ start) :
    p.getPageAddress (wrap64 (start + defaultPageSize * j)) =
      wrap64 (start + defaultPageSize * j) := by
  obtain ⟨m, rfl⟩ := hstart
  rw [getPageAddress_pow (k := 12) (by decide) hl.pageSize (wrap64_lt _)]
  unfold wrap64 defaultPageSize
  omega

theorem asked_of_address (hstart : defaultPageSize ∣ start) (hj : j < 2 ^ 31) :
    Asked start size (p.getPageAddress (wrap64 (start + defaultPageSize * j)))
      (p.getPageSizeAt (wrap64 (start + defaultPageSize * j))) := by
  rw [getPageAddress_wrap hl hstart]
  refine ⟨j, hj, rfl, ?_⟩
  intro hlt hwhole
  have hend := hl.page_end_lt hlt
  rw [wrap64_of_lt (by omega)]
  exact coversPage_of_address hl hlt hwhole

theorem asked_of_fault (hstart : defaultPageSize ∣ start) {a : Nat} (hlo : start ≤ a)
    (hhi : a < start + size) :
    Asked start size (p.getPageAddress a) (p.getPageSizeAt (p.getPageAddress a)) := by
  have hend := hl.size_le_space
  have hindex := hl.index_lt hlo hhi
  have hpage : p.getPageAddress a = start + 2 ^ 12 * ((a - start) / 2 ^ 12) :=
    getPageAddress_aligned (by decide) hl.pageSize hstart hlo (by omega)
  have hwrap : p.getPageAddress a =
      wrap64 (start + defaultPageSize * ((a - start) / defaultPageSize)) := by
    have hlt := hl.page_end_lt hindex
    rw [hpage, wrap64_of_lt (by omega)]
    rfl
  have hasked := asked_of_address hl hstart (Nat.lt_trans hindex hl.few)
  rw [getPageAddress_wrap hl hstart, ← hwrap] at hasked
  exact hasked

end Layout

/-! ## Where the loops are -/

/-- The address loop throws as soon as its address is negative as an `int`, which
happens within four gigabytes. -/
theorem few_of_nonneg {start j : Nat} (hstart : defaultPageSize ∣ start)
    (h : ∀ i < j, 0 ≤ toInt32 (wrap64 (start + defaultPageSize * i))) : j ≤ 2 ^ 20 := by
  obtain ⟨m, rfl⟩ := hstart
  by_contra hmany
  -- the round in which bit 31 of the address is set
  have hround := h ((2 ^ 19 + 2 ^ 20 - m % 2 ^ 20) % 2 ^ 20) (by omega)
  unfold toInt32 wrap64 defaultPageSize at hround
  rw [Int.bmod_def] at hround
  omega

def Cursor.Placed (start size : Nat) : Cursor → Prop
  | .index copy _ => copy.length ≤ pageCount size defaultPageSize
  | .address a _ => ∃ j, a = wrap64 (start + defaultPageSize * j) ∧
      ∀ i < j, 0 ≤ toInt32 (wrap64 (start + defaultPageSize * i))

def Cursor.Inside : Cursor → Prop
  | .index copy id => id < copy.length
  | .address a _ => 0 ≤ toInt32 a

theorem at?_neg {p : Pages} (hfew : p.pages.length < 2 ^ 31) {id : Int} {state : PageState}
    (h : p.at? id = some state) (hlow : -(2 ^ 31) ≤ id) : 0 ≤ id := by
  by_contra hneg
  have hlt := (List.getElem?_eq_some_iff.mp h).1
  unfold toSizeT at hlt
  omega

theorem toInt32_ge (n : Nat) : -(2 ^ 31) ≤ toInt32 n := by
  unfold toInt32
  rw [Int.bmod_def]
  omega

theorem Cursor.inside_of_head {p : Pages} (hfew : p.pages.length < 2 ^ 31) {c : Cursor}
    (h : c.head p = .skip ∨ c.head p = .page) : c.Inside := by
  cases c with
  | index copy id =>
      by_contra hnot
      have hnone : copy[id]? = none := List.getElem?_eq_none (Nat.le_of_not_lt hnot)
      simp [Cursor.head, hnone] at h
  | address a e =>
      simp only [Cursor.head] at h
      split at h
      next =>
        cases hstate : p.at? (toInt32 a) with
        | none => simp [hstate] at h
        | some state => exact at?_neg hfew hstate (toInt32_ge a)
      next => simp at h

section Cursor

variable {start size : Nat} {p : Pages} (hl : Layout start size defaultPageSize p)

include hl

theorem Cursor.Placed.next {c : Cursor} (hplaced : c.Placed start size) (hinside : c.Inside) :
    (c.next p).Placed start size := by
  cases c with
  | index copy id => exact hplaced
  | address a e =>
      obtain ⟨j, rfl, hbefore⟩ := hplaced
      refine ⟨j + 1, ?_, ?_⟩
      · rw [hl.pageSize]
        unfold wrap64 defaultPageSize
        omega
      · intro i hi
        rcases Nat.lt_succ_iff_lt_or_eq.mp hi with hlt | rfl
        · exact hbefore i hlt
        · exact hinside

theorem Cursor.Placed.asked (hstart : defaultPageSize ∣ start) {c : Cursor}
    (hplaced : c.Placed start size) (hinside : c.Inside) :
    Asked start size (c.pageAddress p) (c.pageSize p) := by
  cases c with
  | index copy id => exact asked_of_id hl (Nat.lt_of_lt_of_le hinside hplaced)
  | address a e =>
      obtain ⟨j, rfl, hbefore⟩ := hplaced
      have hfew := few_of_nonneg hstart hbefore
      exact asked_of_address hl hstart (by omega)

end Cursor

/-- What a thread is about to ask for, or has asked for, and where it goes on. -/
def Control.Placed (start size : Nat) : Control → Prop
  | .copying copy => copy.length ≤ pageCount size defaultPageSize
  | .scanning c => c.Placed start size
  | .limiting c | .adding c => c.Placed start size ∧ c.Inside
  | .claiming a n next | .posting a n next | .working a n _ next =>
      Asked start size a n ∧ ∀ c, next = some c → c.Placed start size
  | .opening | .checking | .waiting | .sending | .returned | .thrown => True

section Turn

variable {cfg : Config} {s s' : State} {t t' : Thread} {effect : Effect} {choice : Choice}
  {start size : Nat}

theorem resume_placed {next : Option Cursor} (h : ∀ c, next = some c → c.Placed start size) :
    (resume next).Placed start size := by
  cases next with
  | none => trivial
  | some c => exact h c rfl

theorem Call.afterLoop_placed (c : Call) : c.afterLoop.Placed start size := by
  cases c <;> trivial

theorem Turned.placed (hl : Layout start size defaultPageSize s.pages)
    (hlength : s.pages.pages.length = pageCount size defaultPageSize)
    (hstart : defaultPageSize ∣ start) (hp : t.control.Placed start size)
    (h : Turned cfg s t choice t' effect) :
    t'.control.Placed start size ∧ ∀ u, effect = .spawn u → u.control.Placed start size := by
  have hfew : s.pages.pages.length < 2 ^ 31 := by
    rw [hlength]
    exact hl.few
  have hquiet : ∀ {c : Control}, c.Placed start size → (∀ u, effect ≠ .spawn u) →
      c.Placed start size ∧ ∀ u, effect = .spawn u → u.control.Placed start size :=
    fun hc hnone => ⟨hc, fun u hu => absurd hu (hnone u)⟩
  cases h with
  | opened h hc =>
      refine hquiet ?_ (fun u hu => (nomatch hu))
      rcases hc with rfl | rfl
      · exact Nat.zero_le _
      · trivial
  | copied h hstate =>
      refine hquiet ?_ (fun u hu => (nomatch hu))
      have hlt := (List.getElem?_eq_some_iff.mp hstate).1
      rw [hlength] at hlt
      show (_ ++ [_]).length ≤ _
      rw [List.length_append, List.length_singleton]
      exact hlt
  | begun h | unprotected h | stored h | counted h | released h | completed h | sent h
  | ignored h | admitted h | wonAsync h | wonSync h =>
      rw [h] at hp
      exact hquiet hp (fun u hu => (nomatch hu))
  | spun h | waited h => exact hquiet hp (fun u hu => (nomatch hu))
  | ended h => exact hquiet t.call.afterLoop_placed (fun u hu => (nomatch hu))
  | outOfRange h | raised h | refused h | refusedAsync h | left h | done h | checked h =>
      exact hquiet trivial (fun u hu => (nomatch hu))
  | rechecked h => exact hquiet (Nat.zero_le _) (fun u hu => (nomatch hu))
  | skipped h hhead =>
      rw [h] at hp
      have hplaced := Cursor.Placed.next hl hp (Cursor.inside_of_head hfew (.inl hhead))
      exact hquiet hplaced (fun u hu => (nomatch hu))
  | queued h hhead =>
      rw [h] at hp
      exact hquiet ⟨hp, Cursor.inside_of_head hfew (.inr hhead)⟩ (fun u hu => (nomatch hu))
  | chosen h hhead =>
      rw [h] at hp
      have hinside := Cursor.inside_of_head hfew (.inr hhead)
      refine hquiet ⟨Cursor.Placed.asked hl hstart hp hinside, ?_⟩ (fun u hu => (nomatch hu))
      intro c hc
      cases hc
      exact Cursor.Placed.next hl hp hinside
  | added h =>
      rw [h] at hp
      obtain ⟨hplaced, hinside⟩ := hp
      refine hquiet ⟨Cursor.Placed.asked hl hstart hplaced hinside, ?_⟩ (fun u hu => (nomatch hu))
      intro c hc
      cases hc
      exact Cursor.Placed.next hl hplaced hinside
  | lost h | finished h =>
      rw [h] at hp
      exact hquiet (resume_placed hp.2) (fun u hu => (nomatch hu))
  | posted h =>
      rw [h] at hp
      refine ⟨resume_placed hp.2, ?_⟩
      intro u hu
      cases hu
      exact ⟨hp.1, fun c hc => by cases hc⟩

/-! ## The reads behind the stores -/

/-- The read of the page has completed, unless it is still to be posted or awaited. -/
def Thread.Backed (reads : List (Nat × Nat)) (t : Thread) : Prop :=
  ∀ a n ops next, t.control = .working a n ops next →
    (.post ∈ ops ∨ .await ∈ ops) ∨ (a, n) ∈ reads

theorem Thread.backed_of_free {reads : List (Nat × Nat)} (h : t.control.Free) :
    t.Backed reads := by
  intro a n ops next heq
  simp [heq, Control.Free] at h

theorem Thread.Backed.mono {reads reads' : List (Nat × Nat)} (h : t.Backed reads)
    (hsub : ∀ r ∈ reads, r ∈ reads') : t.Backed reads' :=
  fun a n ops next hcontrol => (h a n ops next hcontrol).imp_right (hsub _)

theorem Thread.backed_working {reads : List (Nat × Nat)} {a n : Nat} {ops : List Atomic}
    {next : Option Cursor} (h : t.control = .working a n ops next)
    (hops : (.post ∈ ops ∨ .await ∈ ops) ∨ (a, n) ∈ reads) : t.Backed reads := by
  intro a' n' ops' next' heq
  rw [h] at heq
  cases heq
  exact hops

theorem Thread.Backed.tail {reads : List (Nat × Nat)} {a n : Nat} {op : Atomic}
    {rest : List Atomic} {next : Option Cursor} (hb : t.Backed reads)
    (h : t.control = .working a n (op :: rest) next) (hpost : op ≠ .post)
    (hawait : op ≠ .await) : (t.goto (.working a n rest next)).Backed reads := by
  refine Thread.backed_working rfl ?_
  have hops := hb a n _ next h
  rw [List.mem_cons, List.mem_cons, or_iff_right (Ne.symm hpost),
    or_iff_right (Ne.symm hawait)] at hops
  exact hops

/-- A failing `Pull` is not ignored: its caller is the fault handler or, for
`PullAsync`, an asynchronous puller. -/
def Heeded (s : State) : Action → Prop
  | .turn i (.read false) =>
      ∀ t ∈ s.threads[i]?, t.call = .sigsegvAdvance ∨ t.call.limiter.isSome = true
  | _ => True

instance (s : State) (act : Action) : Decidable (Heeded s act) := by
  unfold Heeded
  split <;> infer_instance

theorem apply_reads {i : Nat} (h : (s.setThread i t').apply effect = some s') :
    s'.reads = match effect with
      | .read a n => (a, n) :: s.reads
      | _ => s.reads := by
  cases effect with
  | none | add l | release l | read a n | spawn u | count | claim a =>
      cases h
      rfl
  | protect a n | store a =>
      obtain ⟨_, -, rfl⟩ := Option.map_eq_some_iff.mp h
      rfl

theorem Turned.backed {i : Nat} (hheeded : Heeded s (.turn i choice))
    (ht : s.threads[i]? = some t) (hs : t.Sound) (hb : t.Backed s.reads)
    (h : Turned cfg s t choice t' effect)
    (happly : (s.setThread i t').apply effect = some s') : t'.Backed s'.reads := by
  have hreads := apply_reads happly
  cases h with
  | opened h hc =>
      rcases hc with rfl | rfl <;> exact Thread.backed_of_free trivial
  | copied h | begun h | skipped h | outOfRange h | queued h | chosen h | admitted h | added h
  | raised h | rechecked h | left h | done h | checked h | refused h | refusedAsync h =>
      exact Thread.backed_of_free trivial
  | ended h => exact Thread.backed_of_free t.call.afterLoop_free
  | lost h | posted h | finished h => exact Thread.backed_of_free (resume_free _)
  | spun h | waited h =>
      rw [hreads]
      exact hb
  | wonAsync h => exact fun _ _ _ _ heq => (nomatch heq)
  | wonSync h =>
      refine Thread.backed_working rfl (.inl (.inl ?_))
      cases t.call <;> simp [Call.ops, Paging.sigsegvAdvance, pullPage]
  | sent h => exact Thread.backed_working rfl (.inl (.inr List.mem_cons_self))
  | ignored h hcall =>
      -- a synchronous caller other than the fault handler
      rcases hheeded t ht with hfault | hasync
      · exact absurd hfault hcall
      · rw [(hs.working h).1] at hasync
        cases hasync
  | completed h =>
      refine Thread.backed_working rfl (.inr ?_)
      rw [hreads]
      exact List.mem_cons_self
  | unprotected h | stored h | counted h | released h =>
      rw [hreads]
      exact hb.tail h (by simp) (by simp)

end Turn

/-! ## The invariant -/

structure FetchedInv (start size : Nat) (s : State) : Prop where
  layout : Layout start size defaultPageSize s.pages
  length : s.pages.pages.length = pageCount size defaultPageSize
  tidy : ∀ t ∈ s.threads, t.Tidy
  sound : ∀ t ∈ s.threads, t.Sound
  placed : ∀ t ∈ s.threads, t.control.Placed start size
  backed : ∀ t ∈ s.threads, t.Backed s.reads
  fetched : ∀ k, s.pages.pages[k]? = some .local →
    ∃ r ∈ s.reads, AskedWhole size k → CoversPage start size k r

section Step

variable {cfg : Config} {s s' : State} {start size i : Nat} {t t' : Thread} {effect : Effect}
  {choice : Choice}

theorem apply_layout (hl : Layout start size defaultPageSize s.pages)
    (h : (s.setThread i t').apply effect = some s') :
    Layout start size defaultPageSize s'.pages := by
  cases effect with
  | none | add l | release l | read a n | spawn u | count | claim a =>
      cases h
      exact ⟨hl.startAddress, hl.endAddress, hl.memorySize, hl.pageSize, hl.numPages,
        hl.unit_pos, hl.size_pos, hl.few, hl.space⟩
  | protect a n | store a =>
      obtain ⟨_, -, rfl⟩ := Option.map_eq_some_iff.mp h
      exact ⟨hl.startAddress, hl.endAddress, hl.memorySize, hl.pageSize, hl.numPages,
        hl.unit_pos, hl.size_pos, hl.few, hl.space⟩

theorem apply_local {k : Nat} (h : (s.setThread i t').apply effect = some s')
    (hk : s'.pages.pages[k]? = some .local) :
    s.pages.pages[k]? = some .local ∨ ∃ a, effect = .store a ∧ entry s.pages a = k := by
  cases effect with
  | none | add l | release l | read a n | spawn u | count =>
      cases h
      exact .inl hk
  | claim a =>
      cases h
      have hset : (s.pages.pages.set (entry s.pages a) .inFlight)[k]? = some .local := hk
      by_cases heq : entry s.pages a = k
      · rw [heq, List.getElem?_set_self'] at hset
        obtain ⟨_, -, hlocal⟩ := Option.map_eq_some_iff.mp hset
        cases hlocal
      · rw [List.getElem?_set_ne heq] at hset
        exact .inl hset
  | protect a n =>
      obtain ⟨_, -, rfl⟩ := Option.map_eq_some_iff.mp h
      exact .inl hk
  | store a =>
      obtain ⟨_, -, rfl⟩ := Option.map_eq_some_iff.mp h
      have hset : (s.pages.pages.set (entry s.pages a) .local)[k]? = some .local := hk
      by_cases heq : entry s.pages a = k
      · exact .inr ⟨a, rfl, heq⟩
      · rw [List.getElem?_set_ne heq] at hset
        exact .inl hset

theorem FetchedInv.stored (hi : FetchedInv start size s) (ht : t ∈ s.threads) {a : Nat}
    (h : Turned cfg s t choice t' (.store a)) (hentry : entry s.pages a < s.pages.pages.length) :
    ∃ r ∈ s.reads, AskedWhole size (entry s.pages a) →
      CoversPage start size (entry s.pages a) r := by
  cases h with
  | @stored _ _ n rest next h =>
      obtain ⟨-, -, hpost, hawait, -⟩ := hi.tidy t ht _ _ _ _ h
      have hread : (a, n) ∈ s.reads := by
        rcases hi.backed t ht _ _ _ _ h with hops | hread
        · simp [hpost, hawait] at hops
        · exact hread
      have hplaced := hi.placed t ht
      rw [h] at hplaced
      obtain ⟨⟨j, hj, haddress, hcovers⟩, -⟩ := hplaced
      have hspace := hi.layout.space
      have hindex : entry s.pages a = j := by
        rw [entry, haddress, pageId_wrap (by omega) hi.layout.startAddress hi.layout.pageSize hj,
          toSizeT_natCast (by omega)]
      rw [hindex] at hentry ⊢
      rw [hi.length] at hentry
      exact ⟨(a, n), hread, hcovers hentry⟩

theorem mem_after {v : Thread} (happly : (s.setThread i t').apply effect = some s')
    (hv : v ∈ s'.threads) : v = t' ∨ v ∈ s.threads ∨ effect = .spawn v := by
  obtain ⟨j, hj⟩ := List.mem_iff_getElem?.mp hv
  rcases thread_after happly hj with ⟨-, rfl⟩ | ⟨-, hold⟩ | hspawn
  · exact .inl rfl
  · exact .inr (.inl (List.mem_of_getElem? hold))
  · exact .inr (.inr hspawn)

theorem turn_fetched (hstart : defaultPageSize ∣ start) (hi : FetchedInv start size s)
    (hheeded : Heeded s (.turn i choice)) (h : step cfg s (.turn i choice) = some s') :
    FetchedInv start size s' := by
  obtain ⟨t, t', effect, ht, hturn, happly⟩ := turn_cases h
  have hmem := List.mem_of_getElem? ht
  have hlength := (apply_shape happly).2
  obtain ⟨hbooks, htidy⟩ := hturn.books (hi.tidy t hmem)
  obtain ⟨hplaced, hspawned⟩ := hturn.placed hi.layout hi.length hstart (hi.placed t hmem)
  have hgrow : ∀ r ∈ s.reads, r ∈ s'.reads := by
    intro r hr
    rw [apply_reads happly]
    split
    · exact List.mem_cons_of_mem _ hr
    · exact hr
  have hcallback : ∀ v, effect = .spawn v → ∃ l a n, v = callback l a n := by
    rintro v rfl
    obtain ⟨l, a, n, next, -, rfl, -⟩ := hturn.poster
    exact ⟨l, a, n, rfl⟩
  refine ⟨apply_layout hi.layout happly, hlength.trans hi.length, ?_, ?_, ?_, ?_, ?_⟩
  · intro v hv
    rcases mem_after happly hv with rfl | hv | hspawn
    · exact htidy
    · exact hi.tidy v hv
    · obtain ⟨l, a, n, rfl⟩ := hcallback v hspawn
      exact Thread.tidy_working rfl (markPageLocalCB_tidy l)
  · intro v hv
    rcases mem_after happly hv with rfl | hv | hspawn
    · exact hturn.sound (hi.sound t hmem)
    · exact hi.sound v hv
    · obtain ⟨l, a, n, rfl⟩ := hcallback v hspawn
      exact callback_sound l a n
  · intro v hv
    rcases mem_after happly hv with rfl | hv | hspawn
    · exact hplaced
    · exact hi.placed v hv
    · exact hspawned v hspawn
  · intro v hv
    rcases mem_after happly hv with rfl | hv | hspawn
    · exact hturn.backed hheeded ht (hi.sound t hmem) (hi.backed t hmem) happly
    · exact (hi.backed v hv).mono hgrow
    · obtain ⟨l, a, n, rfl⟩ := hcallback v hspawn
      exact Thread.backed_working rfl (.inl (.inr List.mem_cons_self))
  · intro k hk
    rcases apply_local happly hk with hlocal | ⟨a, rfl, hentry⟩
    · obtain ⟨r, hr, hcovers⟩ := hi.fetched k hlocal
      exact ⟨r, hgrow r hr, hcovers⟩
    · have hlt : k < s.pages.pages.length := hlength ▸ (List.getElem?_eq_some_iff.mp hk).1
      rw [← hentry] at hlt ⊢
      obtain ⟨r, hr, hcovers⟩ := hi.stored hmem hturn hlt
      exact ⟨r, hgrow r hr, hcovers⟩

theorem spawn_fetched (hi : FetchedInv start size s) {u : Thread} (hfree : u.control.Free)
    (hsound : u.Sound) (hplaced : u.control.Placed start size) :
    FetchedInv start size (s.spawn u) := by
  have hmem : ∀ {P : Thread → Prop}, (∀ v ∈ s.threads, P v) → P u →
      ∀ v ∈ (s.spawn u).threads, P v := by
    intro P hold hnew v hv
    rcases List.mem_append.mp hv with hv | hv
    · exact hold v hv
    · rw [List.mem_singleton.mp hv]
      exact hnew
  exact ⟨hi.layout, hi.length, hmem hi.tidy (Thread.tidy_of_free hfree), hmem hi.sound hsound,
    hmem hi.placed hplaced, hmem hi.backed (Thread.backed_of_free hfree), hi.fetched⟩

theorem malloc_fetched (hi : FetchedInv start size s) (content : Int) :
    FetchedInv start size (s.malloc content) :=
  ⟨hi.layout, hi.length, hi.tidy, hi.sound, hi.placed, hi.backed, hi.fetched⟩

theorem range_placed (hi : FetchedInv start size s) (n : Nat) :
    (s.range n).Placed start size := by
  have hspace := hi.layout.space
  refine ⟨0, ?_, fun j hj => (nomatch hj)⟩
  rw [hi.layout.startAddress, Nat.mul_zero, Nat.add_zero, wrap64_of_lt (by omega)]

theorem request_fetched (hi : FetchedInv start size s) (r : Request) :
    FetchedInv start size (s.request r) := by
  cases r with
  | pullAllPagesWithoutClose | pullAllPages =>
      exact spawn_fetched hi trivial trivial (Nat.zero_le _)
  | pullAllPagesWithoutCloseAsync content =>
      exact spawn_fetched (malloc_fetched hi content) trivial trivial (Nat.zero_le _)
  | pullPagesSync n => exact spawn_fetched hi trivial trivial (range_placed hi n)
  | pullPagesAsync n limit content =>
      exact spawn_fetched (malloc_fetched hi content) trivial trivial (range_placed hi n)
  | close => exact spawn_fetched hi trivial rfl trivial

theorem step_fetched (hstart : defaultPageSize ∣ start) {act : Action}
    (hi : FetchedInv start size s) (hheeded : Heeded s act) (h : step cfg s act = some s') :
    FetchedInv start size s' := by
  cases act with
  | fault a =>
      simp only [step, Option.ite_none_right_eq_some, Option.some.injEq] at h
      obtain ⟨⟨hlo, hhi⟩, rfl⟩ := h
      rw [hi.layout.startAddress] at hlo hhi
      rw [hi.layout.memorySize] at hhi
      refine spawn_fetched hi trivial (fun hsome => by cases hsome) ?_
      exact ⟨asked_of_fault hi.layout hstart hlo hhi, fun c hc => by cases hc⟩
  | call r =>
      cases h
      exact request_fetched hi r
  | turn i choice => exact turn_fetched hstart hi hheeded h

end Step

section Received

variable {cfg : Config} {start size : Nat} {accessible : Nat → Bool} {limiter : Nat → Int}
  {s₀ s : State}

theorem received_fetched (hsize : 0 < size) (hfew : pageCount size defaultPageSize < 2 ^ 31)
    (hspace : start + defaultPageSize * pageCount size defaultPageSize < 2 ^ 64)
    (h : received start size accessible limiter = some s₀) : FetchedInv start size s₀ := by
  simp only [received, Option.bind_eq_bind, Option.bind_eq_some_iff, Option.pure_def,
    Option.some.injEq] at h
  obtain ⟨pages, hpages, accessible', -, rfl⟩ := h
  have hl := construct_layout hpages hsize hfew hspace
  obtain ⟨-, -, -, -, -, hnum, hstates, -⟩ := construct_eq_some hpages
  rw [toInt32_of_lt hfew] at hnum
  have hnone : ∀ {P : Thread → Prop}, ∀ t ∈ ([] : List Thread), P t := by
    intro P t ht
    cases ht
  refine ⟨hl, ?_, hnone, hnone, hnone, hnone, ?_⟩
  · dsimp only
    rw [hstates, List.length_replicate, hnum, Int.toNat_natCast]
  · intro k hk
    dsimp only at hk
    rw [hstates] at hk
    have hremote := List.eq_of_mem_replicate (List.mem_of_getElem? hk)
    cases hremote

theorem local_pages_read (hsize : 0 < size) (hstart : defaultPageSize ∣ start)
    (hfew : pageCount size defaultPageSize < 2 ^ 31)
    (hspace : start + defaultPageSize * pageCount size defaultPageSize < 2 ^ 64)
    (h₀ : received start size accessible limiter = some s₀)
    (h : Reaches (step cfg) Heeded s₀ s) {k : Nat} (hk : s.pages.pages[k]? = some .local)
    (hwhole : AskedWhole size k) : ∃ r ∈ s.reads, CoversPage start size k r := by
  have hi : FetchedInv start size s :=
    h.invariant (fun _ _ _ hi hok hstep => step_fetched hstart hi hok hstep)
      (received_fetched hsize hfew hspace h₀)
  obtain ⟨r, hr, hcovers⟩ := hi.fetched k hk
  exact ⟨r, hr, hcovers hwhole⟩

end Received

end RdmaMigration.Paging.Threads
