import RdmaMigration.FaultTolerant.Manager
import RdmaMigration.Manager.Dispatch

/-! # The live partitions of another server

A server answers `MSG_GET_PARTITIONS` with the ids of its clean segments as a text in
the data of one message; the asking server reads it back as a string. The text of a
long list does not fit: `sendPartitionList` writes on past the data, and the string
that is read back ends in the size of the message.
-/

namespace RdmaMigration.FaultTolerant

open Lib Network Manager Coordinator

/-! ## The query -/

def partitionText (s : Server) : List Char :=
  s.localSegments.entries.flatMap fun e =>
    match s.heap[e.2]? with
    | some memory =>
        if memory.state = .clean then decimalInt memory.applicationId ++ [','] else []
    | none => []

def onGetPartitions (s : Server) (message : PollMessage) : Option Memory :=
  if message.type = .getPartitions then
    some (Image.sendPartitionList ((partitionText s).map Image.byteOf))
  else none

/-- The poller on `SENTPARTITIONS`: the string at the data pointer. The queued message
ends after its size. -/
def onSentPartitions (message : PollMessage) : Option (List Char) :=
  if message.type = .sentPartitions then
    (cString message.data 0 (Image.size - Image.dataOffset)).map (·.map Image.charOf)
  else none

/-- `GetLivePartitionsForProcess` on server `self`. `heap` and `heap'` are what lies
behind the queued copies of the request and of the answer. -/
def getLivePartitionsForProcess (self processId : Int) (server : Int → Server)
    (heap heap' : Memory) : Option (List Int) :=
  if processId ≠ self then do
    let request ← Image.onRecvFinish heap Image.getPartitionList
    let answer ← onGetPartitions (server processId) (getMessage request)
    let reply ← Image.onRecvFinish heap' answer
    let partitionList ← onSentPartitions (getMessage reply)
    zsToProcessList partitionList
  else some (getLocalSegmentsList (server self))

/-! ## The text -/

theorem partitionText_eq (s : Server) :
    partitionText s = processListToZs (getLocalSegmentsList s) := by
  unfold partitionText getLocalSegmentsList processListToZs
  induction s.localSegments.entries with
  | nil => rfl
  | cons e entries ih =>
      rw [List.flatMap_cons, List.filterMap_cons, ih]
      cases s.heap[e.2]? with
      | none => rfl
      | some memory =>
          by_cases hclean : memory.state = .clean
          · simp [hclean]
          · simp [hclean]

theorem partitionText_bytes (s : Server) :
    ∀ b ∈ (partitionText s).map Image.byteOf, b ≠ 0 := by
  intro b hb hzero
  obtain ⟨c, hc, rfl⟩ := List.mem_map.mp hb
  rw [partitionText_eq] at hc
  obtain ⟨hpos, hlt⟩ := toNat_of_mem_processListToZs hc
  have hnat : (Image.byteOf c).toNat = 0 := by rw [hzero]; rfl
  rw [Image.byteOf, UInt8.toNat_ofNat', Nat.mod_eq_of_lt hlt] at hnat
  omega

theorem partitionText_chars (s : Server) :
    ((partitionText s).map Image.byteOf).map Image.charOf = partitionText s := by
  refine Image.map_charOf_byteOf fun c hc => ?_
  rw [partitionText_eq] at hc
  exact (toNat_of_mem_processListToZs hc).2

/-! ## The answer -/

section Answer

variable {str : List UInt8} {heap : Memory}

theorem messageType_sendPartitionList (str : List UInt8) :
    readLE (Image.sendPartitionList str) Image.messageTypeOffset 4 =
      MessageType.sentPartitions.code := by
  have hclear := (Image.holds_cleared .sentPartitions).messageType
  rw [Image.sendPartitionList, Image.setDataSize, readLE_writeLE_apart (by decide), Image.copyList,
    readLE_writeBytes_apart (.inl (by unfold Image.messageTypeOffset Image.dataOffset; omega)),
    Image.copyData, readLE_writeBytes_apart (.inl (by decide)), hclear]

theorem queued_sendPartitionList (str : List UInt8) (heap : Memory) :
    ∃ p, Image.onRecvFinish heap (Image.sendPartitionList str) = some p ∧
      (getMessage p).type = .sentPartitions ∧
      ∀ x < Image.size, p x = Image.sendPartitionList str x := by
  have htype := messageType_sendPartitionList str
  obtain ⟨p, hp, hcopy, hread⟩ := Image.onRecvFinish_whole htype rfl heap
  refine ⟨p, hp, ?_, hcopy⟩
  show messageTypeOf (readLE p Image.messageTypeOffset 4) = .sentPartitions
  rw [hread _ _ (by decide), htype]
  rfl

theorem data_sendPartitionList {i : Nat} (hi : i < maxDataSize) :
    (h : i < str.length) → Image.sendPartitionList str (Image.dataOffset + i) = str[i] := by
  intro h
  rw [Image.sendPartitionList, Image.setDataSize, writeLE_outside, Image.copyList,
    writeBytes_outside, Image.copyData, writeBytes_inside h]
  · unfold Covers
    dsimp only
    omega
  · unfold Covers Image.dataSizeOffset
    dsimp only
    omega

theorem null_sendPartitionList (h : str.length < maxDataSize) :
    Image.sendPartitionList str (Image.dataOffset + str.length) = 0 := by
  rw [Image.sendPartitionList, Image.setDataSize, writeLE_outside, Image.copyList]
  · have hfirst : 0 < [(0 : UInt8)].length := Nat.zero_lt_one
    exact writeBytes_inside hfirst
  · unfold Covers Image.dataSizeOffset
    dsimp only
    omega

theorem size_sendPartitionList (str : List UInt8) {k : Nat} (hk : k < 8) :
    Image.sendPartitionList str (Image.dataOffset + maxDataSize + k) =
      UInt8.ofNat (str.length / 256 ^ k) := by
  have hoffset : Image.dataSizeOffset = Image.dataOffset + maxDataSize := rfl
  have hinside : Covers (Image.dataSizeOffset, 8) (Image.dataOffset + maxDataSize + k) := by
    unfold Covers
    dsimp only
    omega
  rw [Image.sendPartitionList, Image.setDataSize, writeLE, if_pos hinside, hoffset,
    Nat.add_sub_cancel_left]

theorem cString_sendPartitionList {p : Memory} {n : Nat} (hn : n ≤ maxDataSize)
    (hlen : n ≤ str.length) (hnonzero : ∀ b ∈ str, b ≠ 0)
    (hcopy : ∀ x < Image.size, p x = Image.sendPartitionList str x)
    (hend : Image.sendPartitionList str (Image.dataOffset + n) = 0) :
    cString (getMessage p).data 0 (Image.size - Image.dataOffset) = some (str.take n) := by
  have hsize : Image.size = Image.dataOffset + maxDataSize + 8 := rfl
  have hlength : (str.take n).length = n := by rw [List.length_take]; omega
  refine cString_eq (by omega) ?_ ?_ ?_
  · intro i hi
    rw [hlength] at hi
    have hdata := @data_sendPartitionList str i (by omega) (by omega)
    rw [List.getElem_take, ← hdata, Nat.zero_add]
    exact hcopy _ (by omega)
  · exact fun b hb => hnonzero b (List.mem_of_mem_take hb)
  · rw [hlength, Nat.zero_add, ← hend]
    exact hcopy _ (by omega)

/-- A list of 2056 bytes covers the size as well, which is written over it. -/
theorem cString_overlong {p : Memory} (hlen : str.length = maxDataSize + 8)
    (hnonzero : ∀ b ∈ str, b ≠ 0) (hcopy : ∀ x < Image.size, p x = Image.sendPartitionList str x) :
    cString (getMessage p).data 0 (Image.size - Image.dataOffset) =
      some (str.take maxDataSize ++ [8, 8]) := by
  have hsize : Image.size = Image.dataOffset + maxDataSize + 8 := rfl
  have hlength : (str.take maxDataSize ++ [8, 8]).length = maxDataSize + 2 := by
    rw [List.length_append, List.length_take, hlen, Nat.min_eq_left (by omega)]
    rfl
  have hbehind : ∀ k < 8, p (Image.dataOffset + (maxDataSize + k)) =
      UInt8.ofNat ((maxDataSize + 8) / 256 ^ k) := by
    intro k hk
    rw [hcopy _ (by omega), ← Nat.add_assoc, size_sendPartitionList str hk, hlen]
  refine cString_eq (by omega) ?_ ?_ ?_
  · intro i hi
    rw [hlength] at hi
    rw [Nat.zero_add]
    show p (Image.dataOffset + i) = _
    rcases Nat.lt_or_ge i maxDataSize with hdata | hover
    · rw [hcopy _ (by omega), @data_sendPartitionList str i hdata (by omega),
        List.getElem_append_left (by rw [List.length_take]; omega), List.getElem_take]
    · obtain ⟨k, rfl⟩ := Nat.exists_eq_add_of_le hover
      rw [hbehind k (by omega), List.getElem_append_right (by rw [List.length_take]; omega)]
      simp only [List.length_take, hlen]
      rcases (by omega : k = 0 ∨ k = 1) with rfl | rfl
      · rfl
      · rfl
  · intro b hb
    rcases List.mem_append.mp hb with hdata | hover
    · exact hnonzero b (List.mem_of_mem_take hdata)
    · rintro rfl
      exact absurd hover (by decide)
  · rw [hlength, Nat.zero_add]
    exact hbehind 2 (by omega)

theorem copyList_inside (h : str.length < maxDataSize) (m : Memory) {x : Nat}
    (hx : ¬ Covers (Image.dataOffset, maxDataSize) x) : Image.copyList m str x = m x := by
  rw [Image.copyList, writeBytes_outside, Image.copyData, writeBytes_outside]
  · unfold Covers at hx ⊢
    dsimp only at hx ⊢
    omega
  · unfold Covers at hx ⊢
    dsimp only [List.length_singleton] at hx ⊢
    omega

theorem copyList_behind (h : maxDataSize ≤ str.length) :
    ∃ b, ∀ m, Image.copyList m str (Image.dataOffset + maxDataSize) = b := by
  rcases Nat.eq_or_lt_of_le h with heq | hlt
  · refine ⟨0, fun m => ?_⟩
    have hfirst : 0 < [(0 : UInt8)].length := Nat.zero_lt_one
    rw [Image.copyList, heq]
    exact writeBytes_inside hfirst
  · refine ⟨str[maxDataSize], fun m => ?_⟩
    rw [Image.copyList, writeBytes_outside, Image.copyData, writeBytes_inside hlt]
    unfold Covers
    dsimp only
    omega

theorem exists_copyList_ne (h : maxDataSize ≤ str.length) :
    ∃ m x, ¬ Covers (Image.dataOffset, maxDataSize) x ∧ Image.copyList m str x ≠ m x := by
  obtain ⟨b, hb⟩ := copyList_behind h
  refine ⟨fun _ => b + 1, Image.dataOffset + maxDataSize, by decide, ?_⟩
  rw [hb]
  grind

end Answer

theorem getLivePartitions_eq {self processId : Int} {server : Int → Server} {text : List UInt8}
    (hother : processId ≠ self)
    (htext : ∀ p : Memory, (∀ x < Image.size, p x = Image.sendPartitionList
        ((partitionText (server processId)).map Image.byteOf) x) →
      cString (getMessage p).data 0 (Image.size - Image.dataOffset) = some text)
    (heap heap' : Memory) :
    getLivePartitionsForProcess self processId server heap heap' =
      zsToProcessList (text.map Image.charOf) := by
  obtain ⟨request, hrequest, hholds, -⟩ :=
    (Image.holds_cleared .getPartitions).queued rfl (Nat.zero_le _) heap
  have hanswer : onGetPartitions (server processId) (getMessage request) =
      some (Image.sendPartitionList ((partitionText (server processId)).map Image.byteOf)) := by
    rw [onGetPartitions, if_pos]
    exact getMessage_type hholds
  obtain ⟨reply, hreply, htype, hcopy⟩ :=
    queued_sendPartitionList ((partitionText (server processId)).map Image.byteOf) heap'
  have hlist : onSentPartitions (getMessage reply) = some (text.map Image.charOf) := by
    rw [onSentPartitions, if_pos htype, htext reply hcopy, Option.map_some]
  have hrequest' : Image.onRecvFinish heap Image.getPartitionList = some request := hrequest
  simp only [getLivePartitionsForProcess, if_pos hother, hrequest', hanswer, hreply, hlist,
    Option.bind_eq_bind, Option.bind_some]

/-- Any number of segments, ids and states: the text of the clean ones has to be shorter
than the data of a message. -/
theorem live_partitions_agree {self processId : Int} {server : Int → Server}
    (hother : processId ≠ self)
    (hids : ∀ id ∈ getLocalSegmentsList (server processId), -2 ^ 63 ≤ id ∧ id < 2 ^ 63) :
    ((∀ heap heap', getLivePartitionsForProcess self processId server heap heap' =
        some (getLocalSegmentsList (server processId))) ∧
      ∀ m x, ¬ Covers (Image.dataOffset, maxDataSize) x →
        Image.copyList m ((partitionText (server processId)).map Image.byteOf) x = m x) ↔
    (partitionText (server processId)).length < maxDataSize := by
  rw [← List.length_map Image.byteOf]
  constructor
  · rintro ⟨-, hinside⟩
    by_contra hlong
    obtain ⟨m, x, hx, hne⟩ := exists_copyList_ne (Nat.le_of_not_lt hlong)
    exact hne (hinside m x hx)
  · intro hfits
    refine ⟨fun heap heap' => ?_, fun m x hx => copyList_inside hfits m hx⟩
    have hnull := null_sendPartitionList hfits
    rw [getLivePartitions_eq hother fun p hcopy => cString_sendPartitionList (Nat.le_of_lt hfits)
      le_rfl (partitionText_bytes _) hcopy hnull, List.take_length, partitionText_chars,
      partitionText_eq]
    exact zsToProcessList_processListToZs hids

def crowded (n : Nat) : Server :=
  { Server.construct 2 1 with
    heap := (List.range n).filterMap fun i =>
      RDMAMemory.construct 1 (2 ^ 44 + 4096 * i) 4096 (1000000 + i)
    localSegments := (List.range n).foldl (fun t i => t.insert (2 ^ 44 + 4096 * i) i) ∅ }

theorem crowded_record (i : Nat) :
    ∃ r, RDMAMemory.construct 1 (2 ^ 44 + 4096 * i) 4096 (1000000 + i) = some r ∧
      r.state = .clean ∧ r.applicationId = 1000000 + i := by
  have hmade : (RDMAMemory.construct 1 (2 ^ 44 + 4096 * i) 4096 (1000000 + i)).isSome := by
    unfold RDMAMemory.construct Paging.Pages.construct
    rw [Option.isSome_map, if_neg (by decide)]
    rfl
  obtain ⟨r, hr⟩ := Option.isSome_iff_exists.mp hmade
  obtain ⟨-, -, -, hstate, -, hid⟩ := RDMAMemory.construct_eq hr
  exact ⟨r, hr, hstate, hid⟩

theorem crowded_heap (n : Nat) :
    (crowded n).heap.length = n ∧ ∀ i < n,
      (crowded n).heap[i]? = RDMAMemory.construct 1 (2 ^ 44 + 4096 * i) 4096 (1000000 + i) := by
  induction n with
  | zero => exact ⟨rfl, fun i hi => nomatch hi⟩
  | succ n ih =>
      obtain ⟨hlength, hheap⟩ := ih
      obtain ⟨r, hr, -⟩ := crowded_record n
      have hsplit : (crowded (n + 1)).heap = (crowded n).heap ++ [r] := by
        simp only [crowded, List.range_succ, List.filterMap_append, List.filterMap_cons, hr,
          List.filterMap_nil]
      rw [hsplit]
      refine ⟨by simp [hlength], fun i hi => ?_⟩
      rcases Nat.lt_succ_iff_lt_or_eq.mp hi with hlt | rfl
      · rw [List.getElem?_append_left (by omega), hheap i hlt]
      · rw [hr, List.getElem?_append_right (by omega), hlength, Nat.sub_self]
        rfl

theorem crowded_entries (n : Nat) :
    (crowded n).localSegments.entries =
      (List.range n).reverse.map fun i => ⟨2 ^ 44 + 4096 * i, i⟩ := by
  induction n with
  | zero => rfl
  | succ n ih =>
      have hinsert : (crowded (n + 1)).localSegments =
          (crowded n).localSegments.insert (2 ^ 44 + 4096 * n) n := by
        simp only [crowded, List.range_succ, List.foldl_append, List.foldl_cons, List.foldl_nil]
      have hfresh : 2 ^ 44 + 4096 * n ∉ (crowded n).localSegments := by
        rw [AList.mem_keys, AList.keys, List.keys, ih]
        simp
      rw [hinsert, AList.entries_insert_of_notMem hfresh, ih, List.range_succ]
      simp

theorem crowded_list (n : Nat) :
    getLocalSegmentsList (crowded n) =
      (List.range n).reverse.map fun i : Nat => 1000000 + (i : Int) := by
  rw [getLocalSegmentsList, crowded_entries, List.filterMap_map]
  refine (List.filterMap_congr fun i hi => ?_).trans (congrFun List.filterMap_eq_map _)
  have hlt : i < n := List.mem_range.mp (List.mem_reverse.mp hi)
  obtain ⟨r, hr, hstate, hid⟩ := crowded_record i
  have hrecord := ((crowded_heap n).2 i hlt).trans hr
  simp only [Function.comp_apply, hrecord, Option.bind_some, if_pos hstate, hid]

theorem live_partitions_agree_two :
    getLocalSegmentsList (crowded 2) = [1000001, 1000000] ∧
    getLivePartitionsForProcess 0 1 (fun _ => crowded 2) (fun _ => 1) (fun _ => 1) =
      some [1000001, 1000000] := by
  have hlist : getLocalSegmentsList (crowded 2) = [1000001, 1000000] := crowded_list 2
  have hagree := ((@live_partitions_agree 0 1 (fun _ => crowded 2) (by decide)
    (by rw [hlist]; decide)).mpr (by decide +kernel)).1 (fun _ => 1) (fun _ => 1)
  exact ⟨hlist, by rw [hagree, hlist]⟩

/-- With 257 segments the text has 2056 bytes. Its last 8 characters and the null byte are
written behind the data. The asking server reads 256 ids and two bytes of the size behind
them, finds no comma after these, and throws. -/
theorem live_partitions_cut :
    (getLocalSegmentsList (crowded 257)).length = 257 ∧
    getLivePartitionsForProcess 0 1 (fun _ => crowded 257) (fun _ => 1) (fun _ => 1) = none ∧
    ∃ m x, ¬ Covers (Image.dataOffset, maxDataSize) x ∧
      Image.copyList m ((partitionText (crowded 257)).map Image.byteOf) x ≠ m x := by
  have hlength : ((partitionText (crowded 257)).map Image.byteOf).length = maxDataSize + 8 := by
    rw [List.length_map, partitionText_eq, crowded_list]
    decide +kernel
  refine ⟨?_, ?_, exists_copyList_ne (by rw [hlength]; decide)⟩
  · rw [crowded_list, List.length_map, List.length_reverse, List.length_range]
  · rw [@getLivePartitions_eq 0 1 (fun _ => crowded 257) _ (by decide) fun p hcopy =>
      cString_overlong hlength (partitionText_bytes _) hcopy]
    rw [List.map_append, List.map_take, partitionText_chars, partitionText_eq, crowded_list]
    decide +kernel

end RdmaMigration.FaultTolerant
