import Mathlib.Data.List.Nodup
import RdmaMigration.Paging.Geometry
import RdmaMigration.Paging.Machine

/-! # `PullPagesSync`

The loop walks over 64-bit addresses. Two of its three queries of the page table
pass a pointer; the first one, `getPageState(segment_pull)`, passes the integer
itself, so that the overload for page numbers is taken and the address, narrowed
to `int`, is used as an index of the table.
-/

namespace RdmaMigration.Paging

open Lib

/-- How a pull ends early: the exception of `at`, the `exit` after a failed
`mprotect`, or never (the model's rounds are used up). -/
inductive PullError where
  | outOfRange
  | exited
  | endless
  deriving DecidableEq, Repr

structure Pulled where
  pages : Pages
  accessible : Nat → Bool
  reads : List (Nat × Nat)

namespace Pulled

def markPageLocal (s : Pulled) (address size : Nat) : Except PullError Pulled :=
  match mprotect address size true s.accessible with
  | none => .error .exited
  | some accessible =>
      match s.pages.at? (s.pages.pageId address) with
      | none => .error .outOfRange
      | some _ =>
          .ok { s with
            accessible := accessible
            pages := { s.pages.store (s.pages.pageId address) .local with
              localPages := s.pages.localPages + 1 } }

theorem markPageLocal_eq {s : Pulled} {address size : Nat} {accessible : Nat → Bool}
    {state : PageState} (hacc : mprotect address size true s.accessible = some accessible)
    (hstate : s.pages.at? (s.pages.pageId address) = some state) :
    s.markPageLocal address size = .ok { s with
      accessible := accessible
      pages := { s.pages.store (s.pages.pageId address) .local with
        localPages := s.pages.localPages + 1 } } := by
  rw [markPageLocal, hacc, hstate]

theorem pages_of_markPageLocal {s s' : Pulled} {address size : Nat}
    (h : s.markPageLocal address size = .ok s') :
    s'.pages = { s.pages.store (s.pages.pageId address) .local with
      localPages := s.pages.localPages + 1 } := by
  unfold markPageLocal at h
  split at h
  · cases h
  · split at h
    · cases h
    · cases h
      rfl

/-- The body of the loop. `spurious` says which compare-and-exchange fails for no reason. -/
def pullRound (spurious : Nat → Bool) (segmentPull : Nat) (s : Pulled) :
    Except PullError Pulled :=
  match s.pages.at? (toInt32 segmentPull) with
  | none => .error .outOfRange
  | some PageState.local => .ok s
  | some _ =>
      let addr := s.pages.getPageAddress segmentPull
      let pagesize := s.pages.getPageSizeAt segmentPull
      match s.pages.compareExchangeWeak (s.pages.pageId addr) .remote .inFlight
          (spurious segmentPull) with
      | none => .error .outOfRange
      | some (false, _) => .ok s
      | some (true, pages) =>
          markPageLocal { s with pages := pages, reads := s.reads ++ [(addr, pagesize)] } addr
            pagesize

def pullLoop (spurious : Nat → Bool) : Nat → Nat → Nat → Pulled → Except PullError Pulled
  | 0, segmentPull, endSegmentPull, s =>
      if segmentPull < endSegmentPull then .error .endless else .ok s
  | rounds + 1, segmentPull, endSegmentPull, s =>
      if segmentPull < endSegmentPull then do
        let s ← pullRound spurious segmentPull s
        pullLoop spurious rounds (wrap64 (segmentPull + s.pages.pageSize)) endSegmentPull s
      else .ok s

theorem pullLoop_done {spurious : Nat → Bool} {a b : Nat} (h : ¬ a < b) (rounds : Nat)
    (s : Pulled) : s.pullLoop spurious rounds a b = .ok s := by
  cases rounds with
  | zero => rw [pullLoop, if_neg h]
  | succ rounds => rw [pullLoop, if_neg h]

theorem pullLoop_more {spurious : Nat → Bool} {a b rounds : Nat} {s s' : Pulled} (hmore : a < b)
    (h : s.pullLoop spurious rounds a b = .ok s') :
    ∃ rounds' s₁, s.pullRound spurious a = .ok s₁ ∧
      s₁.pullLoop spurious rounds' (wrap64 (a + s₁.pages.pageSize)) b = .ok s' := by
  cases rounds with
  | zero =>
      rw [pullLoop, if_pos hmore] at h
      cases h
  | succ rounds =>
      rw [pullLoop, if_pos hmore] at h
      cases hround : s.pullRound spurious a with
      | error e =>
          rw [hround] at h
          cases h
      | ok s₁ =>
          rw [hround] at h
          exact ⟨rounds, s₁, rfl, h⟩

/-- `PullPagesSync(v_addr, size, source)` on the record of the segment. With a page
size of at least one byte the loop makes at most `size` rounds. -/
def pullPagesSync (spurious : Nat → Bool) (vaddr size : Nat) (s : Pulled) :
    Except PullError Pulled :=
  pullLoop spurious size vaddr (wrap64 (vaddr + size)) s

end Pulled

/-! ## The states that the loop leaves behind -/

def visited (states : List PageState) (k : Nat) : List PageState :=
  states.mapIdx fun j state => if j < k ∧ state = .remote then .local else state

theorem getElem?_visited (states : List PageState) (k j : Nat) :
    (visited states k)[j]? =
      states[j]?.map fun state => if j < k ∧ state = .remote then .local else state := by
  rw [visited, List.getElem?_mapIdx]

@[simp] theorem visited_zero (states : List PageState) : visited states 0 = states := by
  apply List.ext_getElem?
  intro j
  simp [getElem?_visited]

theorem visited_succ_ne (states : List PageState) {k j : Nat} (hj : j ≠ k) :
    (visited states (k + 1))[j]? = (visited states k)[j]? := by
  have hlt : j < k + 1 ↔ j < k := by omega
  simp only [getElem?_visited, hlt]

theorem visited_at (states : List PageState) (k : Nat) : (visited states k)[k]? = states[k]? := by
  simp [getElem?_visited]

theorem visited_skip {states : List PageState} {k : Nat} (h : states[k]? ≠ some .remote) :
    visited states (k + 1) = visited states k := by
  apply List.ext_getElem?
  intro j
  by_cases hj : j = k
  · subst hj
    rw [visited_at, getElem?_visited]
    cases hstate : states[j]? with
    | none => rfl
    | some state =>
        have hne : state ≠ .remote := fun heq => h (by rw [hstate, heq])
        simp [hne]
  · exact visited_succ_ne states hj

theorem visited_pull {states : List PageState} {k : Nat} (h : states[k]? = some .remote) :
    visited states (k + 1) = (visited states k).set k .local := by
  apply List.ext_getElem?
  intro j
  by_cases hj : j = k
  · subst hj
    have hlt : j < (visited states j).length := by
      rw [visited, List.length_mapIdx]
      exact (List.getElem?_eq_some_iff.mp h).1
    rw [List.getElem?_set_self hlt, getElem?_visited, h]
    simp
  · rw [visited_succ_ne states hj, List.getElem?_set_ne (Ne.symm hj)]

def readPages (start : Nat) (states : List PageState) (k : Nat) : List (Nat × Nat) :=
  ((List.range k).filter fun j => states[j]? = some .remote).map
    fun j => (start + defaultPageSize * j, defaultPageSize)

theorem readPages_succ (start : Nat) (states : List PageState) (k : Nat) :
    readPages start states (k + 1) = readPages start states k ++
      if states[k]? = some .remote then [(start + defaultPageSize * k, defaultPageSize)]
      else [] := by
  rw [readPages, List.range_succ, List.filter_append, List.map_append, ← readPages]
  by_cases h : states[k]? = some .remote <;> simp [h]

theorem readPages_nodup (start : Nat) (states : List PageState) (k : Nat) :
    ((readPages start states k).map Prod.fst).Nodup := by
  rw [readPages, List.map_map]
  refine List.Nodup.map ?_ (List.nodup_range.filter _)
  intro i j h
  simp only [Function.comp_apply, defaultPageSize] at h
  omega

/-! ## One round -/

/-- A received segment before the call: geometry of the constructor, any states. -/
structure Received (start memorySize : Nat) (states : List PageState) (p : Pages) : Prop where
  aligned : Aligned start memorySize
  geometry : Geometry start memorySize p
  pages : p.pages = states
  few : states.length < 2 ^ 31

structure RoundInv (start memorySize : Nat) (states : List PageState) (k : Nat) (s : Pulled) :
    Prop where
  received : Received start memorySize (visited states k) s.pages
  reads : s.reads = readPages start states k

/-- The index that `getPageState(segment_pull)` takes for page `k`. -/
def lookedUp (start k : Nat) : Nat := toSizeT (toInt32 (start + defaultPageSize * k))

/-- Page `k` and the entry that the wrong overload reads for it exist. For a remote page
that entry is neither `Local` nor turned `Local` by an earlier round, and the
compare-and-exchange does not fail for no reason. -/
def LookupHarmless (states : List PageState) (spurious : Nat → Bool) (start k : Nat) : Prop :=
  k < states.length ∧ ∃ state, states[lookedUp start k]? = some state ∧
    (states[k]? = some .remote → spurious (start + defaultPageSize * k) = false ∧
      state ≠ .local ∧ (state = .remote → k ≤ lookedUp start k))

/-- What a call on the first `size` bytes is asked for: their pages have entries, those
that were `Remote` are `Local` now, all others are as they were, and the pages that were
read were remote ones of the range, each read once and in full. -/
structure Fetched (start size : Nat) (states : List PageState) (s : Pulled) : Prop where
  inside : ∀ k : Nat, defaultPageSize * k < size → ∃ state, states[k]? = some state ∧
    s.pages.pages[k]? = some (if state = .remote then .local else state)
  outside : ∀ k : Nat, size ≤ defaultPageSize * k → s.pages.pages[k]? = states[k]?
  reads : ∀ r ∈ s.reads, ∃ k : Nat, states[k]? = some .remote ∧ defaultPageSize * k < size ∧
    r = (start + defaultPageSize * k, defaultPageSize)
  once : (s.reads.map Prod.fst).Nodup

namespace Pulled

variable {spurious : Nat → Bool} {a : Nat} {s : Pulled}

theorem pullRound_of_claimed {state current : PageState} (h : s.pages.at? (toInt32 a) = some state)
    (hcurrent : s.pages.at? (s.pages.pageId (s.pages.getPageAddress a)) = some current)
    (hne : current ≠ .remote) : s.pullRound spurious a = .ok s := by
  rw [pullRound, h]
  cases state <;> simp [Pages.compareExchangeWeak, hcurrent, hne]

theorem pullRound_of_skipped {state : PageState} (h : s.pages.at? (toInt32 a) = some state)
    (hremote : s.pages.at? (s.pages.pageId (s.pages.getPageAddress a)) = some .remote)
    (hskip : state = .local ∨ spurious a = true) : s.pullRound spurious a = .ok s := by
  rw [pullRound, h]
  cases state with
  | «local» => rfl
  | remote | inFlight =>
      have hspurious : spurious a = true := hskip.resolve_left (by decide)
      simp [Pages.compareExchangeWeak, hremote, hspurious]

theorem pullRound_of_remote {state : PageState} (h : s.pages.at? (toInt32 a) = some state)
    (hstate : state ≠ .local)
    (hremote : s.pages.at? (s.pages.pageId (s.pages.getPageAddress a)) = some .remote)
    (hspurious : spurious a = false) :
    s.pullRound spurious a = markPageLocal
      { s with
        pages := s.pages.store (s.pages.pageId (s.pages.getPageAddress a)) .inFlight
        reads := s.reads ++ [(s.pages.getPageAddress a, s.pages.getPageSizeAt a)] }
      (s.pages.getPageAddress a) (s.pages.getPageSizeAt a) := by
  rw [pullRound, h]
  cases state with
  | «local» => exact absurd rfl hstate
  | remote | inFlight => simp [Pages.compareExchangeWeak, hremote, hspurious]

end Pulled

section Round

variable {start memorySize k : Nat} {states : List PageState} {p : Pages}

theorem Received.page_le (hr : Received start memorySize states p) (hk : k < states.length) :
    defaultPageSize * k + defaultPageSize ≤ memorySize := by
  have hfits := hr.geometry.fits
  rw [hr.pages] at hfits
  have hmul : defaultPageSize * (k + 1) ≤ defaultPageSize * states.length :=
    Nat.mul_le_mul_left _ hk
  rw [Nat.mul_succ] at hmul
  omega

theorem Received.getPageAddress_eq (hr : Received start memorySize states p)
    (hk : k < states.length) :
    p.getPageAddress (start + defaultPageSize * k) = start + defaultPageSize * k := by
  have hle := hr.page_le hk
  have hbound := hr.aligned.bound
  have hpos : 0 < defaultPageSize := by decide
  have hpage := @getPageAddress_aligned p 12 start (start + defaultPageSize * k) (by decide)
    hr.geometry.pageSize hr.aligned.start_dvd (Nat.le_add_right _ _) (by omega)
  rw [hpage, Nat.add_sub_cancel_left]
  exact congrArg (fun j => start + defaultPageSize * j) (Nat.mul_div_cancel_left k hpos)

theorem Received.getPageSizeAt_eq (hr : Received start memorySize states p)
    (hk : k < states.length) :
    p.getPageSizeAt (start + defaultPageSize * k) = defaultPageSize := by
  have hle := hr.page_le hk
  have hbound := hr.aligned.bound
  rw [Pages.getPageSizeAt, hr.geometry.pageSize, hr.geometry.endAddress,
    wrap64_of_lt (by omega)]
  exact if_neg (by omega)

theorem Received.pageId_eq (hr : Received start memorySize states p) (hk : k < states.length) :
    p.pageId (start + defaultPageSize * k) = (k : Nat) := by
  have hle := hr.page_le hk
  have hbound := hr.aligned.bound
  have hfew := hr.few
  have hpos : 0 < defaultPageSize := by decide
  rw [Pages.pageId, hr.geometry.startAddress, hr.geometry.pageSize,
    sub64_of_le (by omega) (by omega), Nat.add_sub_cancel_left, Nat.mul_div_cancel_left k hpos,
    toInt32_of_lt (by omega)]

theorem Received.at?_eq (hr : Received start memorySize states p) (hk : k < states.length) :
    p.at? (k : Nat) = states[k]? := by
  have hfew := hr.few
  rw [Pages.at?, toSizeT_natCast (by omega), hr.pages]

theorem Received.set (hr : Received start memorySize states p) (hk : k < states.length)
    (state : PageState) :
    Received start memorySize (states.set k state) (p.store (k : Nat) state) := by
  have hfew := hr.few
  refine ⟨hr.aligned, hr.geometry.store _ _, ?_, by rw [List.length_set]; exact hfew⟩
  rw [Pages.store, toSizeT_natCast (by omega), hr.pages]

theorem Received.count (hr : Received start memorySize states p) (localPages : Int) :
    Received start memorySize states { p with localPages := localPages } :=
  ⟨hr.aligned, ⟨hr.geometry.startAddress, hr.geometry.endAddress, hr.geometry.memorySize,
    hr.geometry.pageSize, hr.geometry.fits⟩, hr.pages, hr.few⟩

theorem mprotect_page (k : Nat) (accessible : Nat → Bool)
    (hr : Received start memorySize states p) :
    ∃ accessible', mprotect (start + defaultPageSize * k) defaultPageSize true accessible =
      some accessible' := by
  obtain ⟨m, hm⟩ := hr.aligned.start_dvd
  rw [mprotect, if_pos (by unfold defaultPageSize at *; omega)]
  exact ⟨_, rfl⟩

variable {s : Pulled} {spurious : Nat → Bool}

theorem RoundInv.seen (hi : RoundInv start memorySize states k s) :
    s.pages.at? (toInt32 (start + defaultPageSize * k)) =
      states[lookedUp start k]?.map fun state =>
        if lookedUp start k < k ∧ state = .remote then .local else state := by
  rw [Pages.at?, hi.received.pages, ← lookedUp, getElem?_visited]

theorem RoundInv.current (hi : RoundInv start memorySize states k s) (hk : k < states.length) :
    s.pages.at? (s.pages.pageId (s.pages.getPageAddress (start + defaultPageSize * k))) =
      states[k]? := by
  have hr := hi.received
  have hk' : k < (visited states k).length := by
    rw [visited, List.length_mapIdx]
    exact hk
  rw [hr.getPageAddress_eq hk', hr.pageId_eq hk', hr.at?_eq hk', visited_at]

theorem RoundInv.round (hi : RoundInv start memorySize states k s)
    (hlook : LookupHarmless states spurious start k) :
    ∃ s', s.pullRound spurious (start + defaultPageSize * k) = .ok s' ∧
      RoundInv start memorySize states (k + 1) s' := by
  obtain ⟨hk, state, hstate, hharmless⟩ := hlook
  have hr := hi.received
  have hk' : k < (visited states k).length := by
    rw [visited, List.length_mapIdx]
    exact hk
  have hseen := hi.seen
  rw [hstate, Option.map_some] at hseen
  have hcurrent := hi.current hk
  by_cases hremote : states[k]? = some .remote
  · -- the page is pulled
    obtain ⟨hspurious, hlocal, hlater⟩ := hharmless hremote
    have hnot : ¬ (lookedUp start k < k ∧ state = .remote) :=
      fun h => Nat.not_lt.mpr (hlater h.2) h.1
    rw [if_neg hnot] at hseen
    rw [Pulled.pullRound_of_remote hseen hlocal (hcurrent.trans hremote) hspurious,
      hr.getPageAddress_eq hk', hr.getPageSizeAt_eq hk', hr.pageId_eq hk']
    have hflight := hr.set hk' .inFlight
    have hpulled := hflight.set (by rw [List.length_set]; exact hk') .local
    rw [List.set_set, ← visited_pull hremote] at hpulled
    obtain ⟨accessible, hacc⟩ := mprotect_page k s.accessible hr
    have hid : (s.pages.store (k : Nat) .inFlight).pageId (start + defaultPageSize * k) =
        (k : Nat) := hr.pageId_eq hk'
    have hat : (s.pages.store (k : Nat) .inFlight).at? ((s.pages.store (k : Nat) .inFlight).pageId
        (start + defaultPageSize * k)) = some .inFlight := by
      rw [hid]
      exact Pages.at?_store_self ((hr.at?_eq hk').trans ((visited_at states k).trans hremote)) _
    refine ⟨_, Pulled.markPageLocal_eq hacc hat, ?_, ?_⟩
    · dsimp only
      rw [hid]
      exact hpulled.count _
    · rw [readPages_succ, if_pos hremote, ← hi.reads]
  · -- the page stays as it is
    obtain ⟨current, hcur⟩ : ∃ current, states[k]? = some current :=
      ⟨_, List.getElem?_eq_getElem hk⟩
    have hne : current ≠ .remote := fun h => hremote (by rw [hcur, h])
    refine ⟨s, Pulled.pullRound_of_claimed hseen (hcurrent.trans hcur) hne, ?_⟩
    rw [← visited_skip hremote] at hr
    exact ⟨hr, by rw [hi.reads, readPages_succ, if_neg hremote, List.append_nil]⟩

theorem Received.round {s' : Pulled} (hr : Received start memorySize states s.pages)
    (hk : k < states.length) (h : s.pullRound spurious (start + defaultPageSize * k) = .ok s') :
    ∃ states', Received start memorySize states' s'.pages ∧ states'.length = states.length ∧
      ∀ j, j ≠ k → states'[j]? = states[j]? := by
  unfold Pulled.pullRound at h
  split at h
  · cases h
  · cases h
    exact ⟨states, hr, rfl, fun _ _ => rfl⟩
  · dsimp only at h
    rw [hr.getPageAddress_eq hk, hr.pageId_eq hk] at h
    split at h
    · cases h
    · cases h
      exact ⟨states, hr, rfl, fun _ _ => rfl⟩
    · next pages hcas =>
      rcases Pages.compareExchangeWeak_spec hcas with ⟨-, -, rfl⟩ | ⟨hlost, -⟩
      · have hid : (s.pages.store (k : Nat) .inFlight).pageId (start + defaultPageSize * k) =
            (k : Nat) := hr.pageId_eq hk
        have hpages := Pulled.pages_of_markPageLocal h
        dsimp only at hpages
        rw [hid] at hpages
        refine ⟨(states.set k .inFlight).set k .local, ?_, by simp, ?_⟩
        · rw [hpages]
          exact ((hr.set hk .inFlight).set (by rw [List.length_set]; exact hk) .local).count _
        · intro j hj
          rw [List.getElem?_set_ne (Ne.symm hj), List.getElem?_set_ne (Ne.symm hj)]
      · cases hlost

theorem RoundInv.skipped {s' : Pulled} (hi : RoundInv start memorySize states k s)
    (hk : k < states.length) (hlook : ¬ LookupHarmless states spurious start k)
    (h : s.pullRound spurious (start + defaultPageSize * k) = .ok s') :
    states[k]? = some .remote ∧ s' = s := by
  have hseen := hi.seen
  cases hstate : states[lookedUp start k]? with
  | none =>
      rw [hstate, Option.map_none] at hseen
      rw [Pulled.pullRound, hseen] at h
      cases h
  | some state =>
      rw [hstate, Option.map_some] at hseen
      have hremote : states[k]? = some .remote := by
        by_contra hother
        exact hlook ⟨hk, state, hstate, fun hremote => absurd hremote hother⟩
      have hskip : (if lookedUp start k < k ∧ state = .remote then PageState.local else state) =
          .local ∨ spurious (start + defaultPageSize * k) = true := by
        by_contra hpulled
        rw [not_or, Bool.not_eq_true] at hpulled
        obtain ⟨hlocal, hspurious⟩ := hpulled
        refine hlook ⟨hk, state, hstate, fun _ => ⟨hspurious, ?_, ?_⟩⟩
        · rintro rfl
          simp at hlocal
        · rintro rfl
          by_contra hlt
          simp [Nat.not_le.mp hlt] at hlocal
      have hround := Pulled.pullRound_of_skipped hseen ((hi.current hk).trans hremote) hskip
      rw [hround] at h
      exact ⟨hremote, (Except.ok.inj h).symm⟩

end Round

/-! ## The loop -/

section Loop

variable {start memorySize size : Nat} {states : List PageState} {spurious : Nat → Bool}

theorem Received.next {p : Pages} {k : Nat} (hr : Received start memorySize states p)
    (hk : k < states.length) :
    wrap64 (start + defaultPageSize * k + p.pageSize) = start + defaultPageSize * (k + 1) := by
  have hbound := hr.aligned.bound
  have hle := hr.page_le hk
  rw [hr.geometry.pageSize, wrap64_of_lt (by omega), Nat.mul_succ, Nat.add_assoc]

theorem RoundInv.loop (hlook : ∀ k < (size + 4095) / 4096, LookupHarmless states spurious start k)
    {left k rounds : Nat}
    (hleft : k + left = (size + 4095) / 4096) (hrounds : left ≤ rounds) {s : Pulled}
    (hi : RoundInv start memorySize states k s) :
    ∃ s', s.pullLoop spurious rounds (start + defaultPageSize * k) (start + size) = .ok s' ∧
      RoundInv start memorySize states ((size + 4095) / 4096) s' := by
  induction left generalizing k rounds s with
  | zero =>
      have hend : ¬ start + defaultPageSize * k < start + size := by
        unfold defaultPageSize
        omega
      rw [Nat.add_zero] at hleft
      exact ⟨s, Pulled.pullLoop_done hend _ _, hleft ▸ hi⟩
  | succ left ih =>
      obtain ⟨rounds, rfl⟩ : ∃ m, rounds = m + 1 := ⟨rounds - 1, by omega⟩
      have hmore : start + defaultPageSize * k < start + size := by
        unfold defaultPageSize
        omega
      have hk := (hlook k (by omega)).1
      obtain ⟨s₁, hround, hi₁⟩ := hi.round (hlook k (by omega))
      have hnext := hi₁.received.next (k := k) (by
        rw [visited, List.length_mapIdx]
        exact hk)
      obtain ⟨s₂, hloop, hi₂⟩ := ih (by omega) (Nat.le_of_succ_le_succ hrounds) hi₁
      refine ⟨s₂, ?_, hi₂⟩
      rw [Pulled.pullLoop, if_pos hmore]
      simp only [hround, bind, Except.bind, hnext, hloop]

theorem Received.loop {left k rounds : Nat} {s s' : Pulled}
    (hr : Received start memorySize states s.pages) (hcount : k + left = (size + 4095) / 4096)
    (hlength : (size + 4095) / 4096 ≤ states.length)
    (h : s.pullLoop spurious rounds (start + defaultPageSize * k) (start + size) = .ok s')
    {j : Nat} (hj : j < k) : s'.pages.pages[j]? = states[j]? := by
  induction left generalizing k rounds s states with
  | zero =>
      have hend : ¬ start + defaultPageSize * k < start + size := by
        unfold defaultPageSize
        omega
      rw [Pulled.pullLoop_done hend] at h
      rw [← Except.ok.inj h, hr.pages]
  | succ left ih =>
      have hmore : start + defaultPageSize * k < start + size := by
        unfold defaultPageSize
        omega
      obtain ⟨rounds', s₁, hround, hrest⟩ := Pulled.pullLoop_more hmore h
      obtain ⟨states', hr', hlength', hsame⟩ := hr.round (by omega) hround
      rw [hr'.next (by omega)] at hrest
      rw [ih hr' (by omega) (by omega) hrest (by omega), hsame j (by omega)]

/-- A loop that fetches every page it is asked for meets no harmful lookup. -/
theorem RoundInv.harmless {left k rounds : Nat} {s s' : Pulled}
    (hi : RoundInv start memorySize states k s) (hcount : k + left = (size + 4095) / 4096)
    (hlength : (size + 4095) / 4096 ≤ states.length)
    (h : s.pullLoop spurious rounds (start + defaultPageSize * k) (start + size) = .ok s')
    (hfetched : ∀ j < (size + 4095) / 4096, s'.pages.pages[j]? ≠ some .remote) {j : Nat}
    (hk : k ≤ j) (hj : j < (size + 4095) / 4096) : LookupHarmless states spurious start j := by
  induction left generalizing k rounds s with
  | zero => omega
  | succ left ih =>
      have hmore : start + defaultPageSize * k < start + size := by
        unfold defaultPageSize
        omega
      have hlength' : (visited states k).length = states.length := by
        rw [visited, List.length_mapIdx]
      obtain ⟨rounds', s₁, hround, hrest⟩ := Pulled.pullLoop_more hmore h
      by_cases hlook : LookupHarmless states spurious start k
      · rcases Nat.eq_or_lt_of_le hk with rfl | hlt
        · exact hlook
        · obtain ⟨s₂, hround', hi'⟩ := hi.round hlook
          cases hround.symm.trans hround'
          have hlength₁ : (visited states (k + 1)).length = states.length := by
            rw [visited, List.length_mapIdx]
          rw [hi'.received.next (by omega)] at hrest
          exact ih hi' (by omega) hrest hlt
      · -- page `k` is skipped, and no later round turns its entry `Local`
        obtain ⟨hremote, rfl⟩ := hi.skipped (by omega) hlook hround
        rw [hi.received.next (by omega)] at hrest
        have hleft : k + 1 + left = (size + 4095) / 4096 := by omega
        have hkept := hi.received.loop hleft (by omega) hrest (Nat.lt_succ_self k)
        rw [visited_at, hremote] at hkept
        exact absurd hkept (hfetched k (by omega))

end Loop

/-- A call on any part of the segment from its start, whatever the states before. -/
theorem pull_pages_sync_fetches {start memorySize size : Nat} {states : List PageState}
    {p : Pages} (accessible : Nat → Bool) (spurious : Nat → Bool) (hal : Aligned start memorySize)
    (hp : Pages.construct start memorySize defaultPageSize = some p)
    (hstates : states.length = p.pages.length) (hsize : size ≤ memorySize) :
    (∃ s, Pulled.pullPagesSync spurious start size ⟨{ p with pages := states }, accessible, []⟩ =
      .ok s ∧ Fetched start size states s) ↔
    ∀ k : Nat, defaultPageSize * k < size → LookupHarmless states spurious start k := by
  have hgeo := (construct_geometry hal hp).1
  obtain ⟨-, -, -, -, -, hnum, hpages, -⟩ := construct_eq_some hp
  have hfew : states.length < 2 ^ 31 := by
    have hlt := toInt32_lt (pageCount memorySize defaultPageSize)
    rw [hstates, hpages, List.length_replicate, hnum]
    omega
  have hi : RoundInv start memorySize states 0
      ⟨{ p with pages := states }, accessible, []⟩ := by
    refine ⟨⟨hal, ⟨hgeo.startAddress, hgeo.endAddress, hgeo.memorySize, hgeo.pageSize, ?_⟩, ?_, ?_⟩,
      rfl⟩
    · dsimp only
      rw [hstates]
      exact hgeo.fits
    · rw [visited_zero]
    · rw [visited_zero]
      exact hfew
  have hbound := hal.bound
  have hcover : ∀ k : Nat, k < (size + 4095) / 4096 ↔ defaultPageSize * k < size := by
    intro k
    unfold defaultPageSize
    omega
  simp only [← hcover]
  rw [Pulled.pullPagesSync, wrap64_of_lt (by omega)]
  constructor
  · rintro ⟨s, hloop, hfetched⟩ k hk
    have hlength : (size + 4095) / 4096 ≤ states.length := by
      by_contra hshort
      obtain ⟨state, hstate, -⟩ := hfetched.inside states.length ((hcover _).mp (by omega))
      simp at hstate
    refine hi.harmless (Nat.zero_add _) hlength hloop ?_ (Nat.zero_le k) hk
    intro j hj hremote
    obtain ⟨state, -, hstate⟩ := hfetched.inside j ((hcover j).mp hj)
    rw [hstate] at hremote
    split at hremote
    · cases hremote
    · next hne => exact hne (Option.some.inj hremote)
  · intro hlook
    obtain ⟨s, hloop, hdone⟩ := hi.loop hlook (Nat.zero_add _)
      (show (size + 4095) / 4096 ≤ size by omega)
    refine ⟨s, hloop, ?_, ?_, ?_, ?_⟩
    · intro k hk
      have hlt := (hlook k ((hcover k).mpr hk)).1
      refine ⟨states[k], List.getElem?_eq_getElem hlt, ?_⟩
      rw [hdone.received.pages, getElem?_visited, List.getElem?_eq_getElem hlt, Option.map_some]
      simp only [(hcover k).mpr hk, true_and]
    · intro k hk
      have hnot : ¬ k < (size + 4095) / 4096 := fun hlt => by
        have := (hcover k).mp hlt
        omega
      rw [hdone.received.pages, getElem?_visited]
      simp [hnot]
    · intro r hr
      rw [hdone.reads, readPages] at hr
      obtain ⟨k, hk, rfl⟩ := List.mem_map.mp hr
      obtain ⟨hrange, hremote⟩ := List.mem_filter.mp hk
      exact ⟨k, of_decide_eq_true hremote, (hcover k).mp (List.mem_range.mp hrange), rfl⟩
    · rw [hdone.reads]
      exact readPages_nodup start states _

/-- One page of a segment of two, at the start of the shared range. -/
theorem pull_pages_sync_fetches_one : ∃ p s,
    Pages.construct (2 ^ 44) 8192 defaultPageSize = some p ∧
    Pulled.pullPagesSync (fun _ => false) (2 ^ 44) 4096
      ⟨{ p with pages := [.remote, .remote] }, fun _ => false, []⟩ = .ok s ∧
    Fetched (2 ^ 44) 4096 [.remote, .remote] s := by
  obtain ⟨p, hp⟩ : ∃ p, Pages.construct (2 ^ 44) 8192 defaultPageSize = some p :=
    Option.isSome_iff_exists.mp (by decide)
  have hal : Aligned (2 ^ 44) 8192 := ⟨by decide, by decide, by decide⟩
  have hlen : [PageState.remote, .remote].length = p.pages.length := by
    obtain ⟨-, -, -, -, -, hnum, hpages, -⟩ := construct_eq_some hp
    rw [hpages, List.length_replicate, hnum]
    decide
  have hlook : ∀ k : Nat, defaultPageSize * k < 4096 →
      LookupHarmless [.remote, .remote] (fun _ => false) (2 ^ 44) k := by
    intro k hk
    obtain rfl : k = 0 := by
      unfold defaultPageSize at hk
      omega
    exact ⟨by decide, .remote, by decide, fun _ => ⟨rfl, by decide, fun _ => by decide⟩⟩
  obtain ⟨s, hs, hfetched⟩ := (pull_pages_sync_fetches (fun _ => false) (fun _ => false) hal hp
    hlen (by decide : 4096 ≤ 8192)).mpr hlook
  exact ⟨p, s, hp, hs, hfetched⟩

/-- The same segment, both pages: for the second one the narrowed address 4096 is no
index of the table. -/
theorem pull_pages_sync_throws : ∃ p, Pages.construct (2 ^ 44) 8192 defaultPageSize = some p ∧
    Pulled.pullPagesSync (fun _ => false) (2 ^ 44) 8192 ⟨p, fun _ => false, []⟩ =
      .error .outOfRange :=
  ⟨_, rfl, rfl⟩

end RdmaMigration.Paging
