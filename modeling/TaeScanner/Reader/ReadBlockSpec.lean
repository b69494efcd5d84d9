/-
  TaeScanner.Reader.ReadBlockSpec

  `ReadBlock` against reading, decompressing and decoding each requested extent
  with a `ReadBytes` of its own.

  Main results:
    * `readBlock_eq_ok_iff`: `ReadBlock` returns the columns iff the individual
      reads do and no merged range reaches 2^32 bytes;
    * `readBlock_readsAlike_iff`: when the two agree, errors included.
-/

import TaeScanner.Reader.Coalescing
import TaeScanner.Reader.MetadataSafety
import TaeScanner.Reader.ReadRange

namespace TaeScanner

open Lib

-- ============================================================================
-- Individual reads
-- ============================================================================

/-- Read, decompress and decode one column with its own `ReadBytes`. -/
def TAEObjectReader.readColumnAlone (fs : FileSystem) (lz4 : LZ4) (r : TAEObjectReader) (blk : BlockInfo)
    (seq : Nat) : Except ReadError DecodedColumn :=
  match blk.columns[seq]? with
  | none => .error (.runtime "column seqnum out of range")
  | some col => do
    let raw ← (r.readBytes fs col.location.offset col.location.length).2
    decodeColumn lz4 col.location raw

/-- The requested columns of a block, in the requested order. -/
def TAEObjectReader.readBlockAlone (fs : FileSystem) (lz4 : LZ4) (r : TAEObjectReader) (md : ObjectMeta)
    (blockIdx : Nat) (seqnums : List Nat) : Except ReadError (List DecodedColumn) :=
  match md.blocks[blockIdx]? with
  | none => .error (.runtime "block index out of range")
  | some blk => seqnums.mapM (r.readColumnAlone fs lz4 blk)

/-- Offsets and lengths that their 32-bit fields can hold. -/
def BlockInfo.ExtentsFit (blk : BlockInfo) : Prop :=
  ∀ col ∈ blk.columns, col.location.offset < 2 ^ 32 ∧ col.location.length < 2 ^ 32

/-- No merged range of the requested columns reaches 2^32 bytes. -/
def BlockInfo.ShortRanges (gapMax : Nat) (blk : BlockInfo) (seqnums : List Nat) : Prop :=
  ∀ reqs, readRequests blk seqnums = .ok reqs → ∀ req ∈ reqs, req.Short gapMax reqs

/-- The content holds a column at an extent. -/
def Stores (lz4 : LZ4) (content : List Byte) (ext : Extent) (col : DecodedColumn) : Prop :=
  ∃ raw, slice? content ext.offset ext.length = some raw ∧ decodeColumn lz4 ext raw = .ok col

section
variable {fs : FileSystem} {lz4 : LZ4} {r : TAEObjectReader} {blk : BlockInfo} {seqnums : List Nat}

theorem BlockInfo.ExtentsFit.getElem? (h : blk.ExtentsFit) {seq : Nat} {col : ColumnMetaInfo}
    (hcol : blk.columns[seq]? = some col) :
    col.location.offset < 2 ^ 32 ∧ col.location.length < 2 ^ 32 :=
  h col (List.mem_of_getElem? hcol)

/-- A column read alone is the one that the content holds at its extent. -/
theorem readColumnAlone_eq_ok (hfs : fs.ThrowsPastEnd) (hr : r.Ready) (hfit : blk.ExtentsFit) {seq : Nat}
    {decoded : DecodedColumn} :
    r.readColumnAlone fs lz4 blk seq = .ok decoded ↔
      ∃ col, blk.columns[seq]? = some col ∧ Stores lz4 r.content col.location decoded := by
  rw [TAEObjectReader.readColumnAlone]
  cases hcol : blk.columns[seq]? with
  | none => exact ⟨nofun, fun ⟨_, h, _⟩ => nomatch h⟩
  | some col =>
      obtain ⟨hoff, hlen⟩ := hfit.getElem? hcol
      obtain ⟨r', res, hread, -, hres⟩ := TAEObjectReader.readBytes_ready hfs hr hoff hlen
      simp only [bind_eq_ok, hread, hres]
      exact ⟨fun h => ⟨col, rfl, h⟩, fun ⟨_, heq, h⟩ => Option.some.inj heq ▸ h⟩

/-- A column is unpacked to its entry header, and then the vector. -/
theorem decodeColumn_entry {ext : Extent} {raw entry v : List Byte}
    (hraw : (if ext.isCompressed then lz4.decompress raw ext.originSize else pure raw) = .ok (entry ++ v))
    (hlen : entry.length = ioEntryHeaderLen) (htype : leNat (entry.take 2) = ioetColData) :
    decodeColumn lz4 ext raw = decodeVector v := by
  have hlong : ¬(entry ++ v).length < ioEntryHeaderLen := by
    rw [List.length_append]
    omega
  have htake : leNat ((entry ++ v).take 2) = ioetColData := by
    rw [List.take_append_of_le_length (by rw [hlen, ioEntryHeaderLen]; omega), htype]
  cases hc : ext.isCompressed with
  | true =>
      rw [hc, if_pos rfl] at hraw
      simp only [decodeColumn, hc, if_true, hraw, ok_bind]
      rw [htake, refuseIf_bind_of_not hlong, refuseIf_bind_of_not (not_not.mpr rfl), ← hlen, List.drop_left]
  | false =>
      rw [hc, if_neg Bool.false_ne_true] at hraw
      obtain rfl := Except.ok.inj hraw
      simp only [decodeColumn, hc, Bool.false_eq_true, if_false, pure_bind]
      rw [htake, refuseIf_bind_of_not hlong, refuseIf_bind_of_not (not_not.mpr rfl), ← hlen, List.drop_left]

/-- A column that is stored as it is. -/
theorem decodeColumn_plain {ext : Extent} (h : ext.isCompressed = false) {entry v : List Byte}
    (hlen : entry.length = ioEntryHeaderLen) (htype : leNat (entry.take 2) = ioetColData) :
    decodeColumn lz4 ext (entry ++ v) = decodeVector v := by
  apply decodeColumn_entry _ hlen htype
  rw [h]
  rfl

-- ============================================================================
-- The requests
-- ============================================================================

/-- The request of one seqnum and its position. -/
def Requests (blk : BlockInfo) (p : Nat × Nat) (req : ReadReq) : Prop :=
  ∃ col, blk.columns[p.1]? = some col ∧ req = ⟨p.1, p.2, col.location.offset, col.location.length⟩

theorem readRequests_eq_ok {reqs : List ReadReq} :
    readRequests blk seqnums = .ok reqs ↔ List.Forall₂ (Requests blk) seqnums.zipIdx reqs := by
  rw [readRequests, mapM_eq_ok]
  apply Iff.of_eq
  congr 1
  funext p req
  simp only [Requests]
  cases blk.columns[p.1]? with
  | none => simp
  | some col => simp [eq_comm]

/-- A request is of its seqnum, at its position. -/
theorem request_mem {reqs : List ReadReq} (h : readRequests blk seqnums = .ok reqs) {req : ReadReq}
    (hreq : req ∈ reqs) :
    seqnums[req.resultIdx]? = some req.seq ∧ ∃ col, blk.columns[req.seq]? = some col ∧
      req.offset = col.location.offset ∧ req.length = col.location.length := by
  obtain ⟨i, hi⟩ := List.mem_iff_getElem?.mp hreq
  obtain ⟨⟨seq, k⟩, hp, col, hcol, rfl⟩ := getElem?_of_forall₂ (readRequests_eq_ok.mp h) hi
  rw [List.getElem?_zipIdx, Option.map_eq_some_iff] at hp
  obtain ⟨_, hseq, heq⟩ := hp
  obtain ⟨rfl, rfl⟩ := Prod.mk.inj heq
  rw [Nat.zero_add]
  exact ⟨hseq, col, hcol, rfl, rfl⟩

/-- The positions are all positions, in order. -/
theorem readRequests_resultIdx {reqs : List ReadReq} (h : readRequests blk seqnums = .ok reqs) :
    reqs.map (·.resultIdx) = List.range seqnums.length := by
  have hsame : seqnums.zipIdx.map (·.2) = reqs.map (·.resultIdx) :=
    map_eq_map_of_forall₂ (readRequests_eq_ok.mp h) fun _ _ ⟨_, _, hreq⟩ => by rw [hreq]
  rw [← hsame, List.zipIdx_map_snd, List.range_eq_range']

/-- A block that is read has as many columns as were asked for, all of them known to
    the metadata. -/
theorem readBlock_ok_inMeta {sort : OffsetSort} {gapMax blockIdx : Nat} {md : ObjectMeta}
    {cols : List DecodedColumn}
    (h : (r.readBlock fs lz4 sort gapMax md blockIdx seqnums).2 = .ok cols) :
    cols.length = seqnums.length ∧ ∃ blk, md.blocks[blockIdx]? = some blk ∧
      ∀ seqnum ∈ seqnums, seqnum < blk.columns.length := by
  rw [TAEObjectReader.readBlock] at h
  cases hblk : md.blocks[blockIdx]? with
  | none =>
      rw [hblk] at h
      cases h
  | some blk =>
      simp only [hblk] at h
      cases hreqs : readRequests blk seqnums with
      | error e =>
          rw [hreqs] at h
          cases h
      | ok reqs =>
          simp only [hreqs] at h
          refine ⟨?_, blk, rfl, fun seqnum hseqnum => ?_⟩
          · rw [TAEObjectReader.readSorted] at h
            simp only at h
            split at h
            · cases h
            · obtain ⟨results, -, rfl⟩ := map_eq_ok.mp h
              rw [placeResults, foldl_set_length, List.length_replicate]
          · obtain ⟨i, hi⟩ := List.mem_iff_getElem?.mp hseqnum
            have hzip : seqnums.zipIdx[i]? = some (seqnum, i) := by
              rw [List.getElem?_zipIdx, hi, Option.map_some, Nat.zero_add]
            obtain ⟨req, -, col, hcol, -⟩ :=
              getElem?_of_forall₂_left (readRequests_eq_ok.mp hreqs) hzip
            exact (List.getElem?_eq_some_iff.mp hcol).1

-- ============================================================================
-- The merged reads
-- ============================================================================

theorem TAEObjectReader.Continues.trans {r₁ r₂ r₃ : TAEObjectReader} (h : r₁.Continues r₂)
    (h' : r₂.Continues r₃) : r₁.Continues r₃ :=
  ⟨h'.ready, h'.content_eq.trans h.content_eq⟩

/-- The merged reads return what the content holds at their ranges. -/
theorem readRanges_ready (hfs : fs.ThrowsPastEnd) (hr : r.Ready) {reads : List CoalescedRead}
    (hfit : ∀ cr ∈ reads, cr.offset < 2 ^ 32 ∧ cr.length < 2 ^ 32) :
    ∃ r' res, r.readRanges fs reads = (r', res) ∧ r.Continues r' ∧ ∀ datas, res = .ok datas ↔
      List.Forall₂ (fun cr data => slice? r.content cr.offset cr.length = some data) reads datas := by
  induction reads generalizing r with
  | nil =>
      refine ⟨r, _, rfl, ⟨hr, rfl⟩, fun datas => ?_⟩
      rw [List.forall₂_nil_left_iff]
      exact ⟨fun h => (Except.ok.inj h).symm, fun h => congrArg Except.ok h.symm⟩
  | cons cr reads ih =>
      rw [List.forall_mem_cons] at hfit
      obtain ⟨r₁, res₁, hread, hcont, hres⟩ := TAEObjectReader.readBytes_ready hfs hr hfit.1.1 hfit.1.2
      rw [TAEObjectReader.readRanges, hread]
      cases res₁ with
      | error e =>
          refine ⟨r₁, _, rfl, hcont, fun datas => ⟨nofun, fun h => ?_⟩⟩
          obtain ⟨data, _, hdata, -, -⟩ := List.forall₂_cons_left_iff.mp h
          cases (hres data).mpr hdata
      | ok data =>
          obtain ⟨r₂, res₂, hrest, hcont₂, hres₂⟩ := ih hcont.ready hfit.2
          rw [hcont.content_eq] at hres₂
          have hdata := (hres data).mp rfl
          simp only [hrest]
          cases res₂ with
          | error e =>
              refine ⟨r₂, _, rfl, hcont.trans hcont₂, fun datas => ⟨nofun, fun h => ?_⟩⟩
              obtain ⟨_, datas', -, hdatas, -⟩ := List.forall₂_cons_left_iff.mp h
              cases (hres₂ datas').mpr hdatas
          | ok datas =>
              have hdatas := (hres₂ datas).mp rfl
              refine ⟨r₂, _, rfl, hcont.trans hcont₂, fun all => ⟨fun h => ?_, fun h => ?_⟩⟩
              · obtain rfl := Except.ok.inj h
                exact .cons hdata hdatas
              · obtain ⟨data', datas', hdata', hdatas', rfl⟩ := List.forall₂_cons_left_iff.mp h
                obtain rfl := Option.some.inj (hdata.symm.trans hdata')
                obtain rfl := Except.ok.inj ((hres₂ datas').mpr hdatas')
                rfl

-- ============================================================================
-- Slicing and decoding
-- ============================================================================

/-- Slicing succeeds iff the request lies in its range and the content holds a column. -/
theorem sliceColumn_eq_ok {content data : List Byte} {ext : Extent} {cr : CoalescedRead} {req : ReadReq}
    {decoded : DecodedColumn} (hdata : slice? content cr.offset cr.length = some data)
    (hstart : cr.offset ≤ req.offset) (hoff : req.offset = ext.offset) (hlen : req.length = ext.length)
    (hfit : ext.offset < 2 ^ 32 ∧ ext.length < 2 ^ 32) :
    sliceColumn lz4 ext cr data req = .ok decoded ↔
      req.stop ≤ cr.stop ∧ Stores lz4 content ext decoded := by
  have hdatalen := slice?_length hdata
  rw [sliceColumn, ReadReq.stop, CoalescedRead.stop]
  rw [wrapSub_of_le (by omega) hstart]
  simp only [wrapAdd_of_lt (by omega : req.offset - cr.offset + ext.length < 2 ^ 64), hdatalen]
  by_cases hin : req.offset + req.length ≤ cr.offset + cr.length
  · have hslice : slice? data (req.offset - cr.offset) ext.length = slice? content ext.offset ext.length := by
      rw [slice?_slice hdata (by omega), hoff, Nat.add_sub_of_le (hoff ▸ hstart)]
    rw [refuseIf, if_neg (by omega)]
    simp only [bind_eq_ok, readAt, hslice, Stores]
    cases slice? content ext.offset ext.length with
    | none => simp
    | some raw => simp [hin]
  · rw [refuseIf, if_pos (by omega)]
    exact iff_of_false (fun h => by cases h) fun h => hin h.1

theorem decodeRequest_eq_ok {reads : List CoalescedRead} {datas : List (List Byte)} {req : ReadReq}
    {k : Nat} {y : Nat × DecodedColumn} :
    decodeRequest lz4 blk reads datas req k = .ok y ↔
      ∃ col cr data decoded, blk.columns[req.seq]? = some col ∧ reads[k]? = some cr ∧
        datas[k]? = some data ∧ sliceColumn lz4 col.location cr data req = .ok decoded ∧
        y = (req.resultIdx, decoded) := by
  rw [decodeRequest]
  split
  · next col cr data hcol hcr hdata =>
      cases hslice : sliceColumn lz4 col.location cr data req with
      | error e => simp [Except.map, hcol, hcr, hdata, hslice]
      | ok decoded =>
          simp only [Except.map, hcol, hcr, hdata, Option.some.injEq, Except.ok.injEq]
          constructor
          · rintro rfl
            exact ⟨col, cr, data, decoded, rfl, rfl, rfl, hslice, rfl⟩
          · rintro ⟨_, _, _, decoded', rfl, rfl, rfl, h, rfl⟩
            rw [hslice] at h
            rw [Except.ok.inj h]
  · next hnone =>
      refine ⟨nofun, ?_⟩
      rintro ⟨col, cr, data, _, hcol, hcr, hdata, -⟩
      exact absurd hdata (hnone col cr data hcol hcr)

-- ============================================================================
-- The sorted requests
-- ============================================================================

section Sorted
variable {gapMax : Nat} {reqs all : List ReadReq}

/-- The sorted requests of some seqnums. -/
structure SortedRequests (blk : BlockInfo) (seqnums : List Nat) (all : List ReadReq) : Prop where
  requested : ∃ reqs, readRequests blk seqnums = .ok reqs ∧ all.Perm reqs
  sorted : all.Pairwise fun a b => a.offset ≤ b.offset

namespace SortedRequests

theorem mem (h : SortedRequests blk seqnums all) {req : ReadReq} (hreq : req ∈ all) :
    seqnums[req.resultIdx]? = some req.seq ∧ ∃ col, blk.columns[req.seq]? = some col ∧
      req.offset = col.location.offset ∧ req.length = col.location.length := by
  obtain ⟨reqs, hreqs, hperm⟩ := h.requested
  exact request_mem hreqs (hperm.mem_iff.mp hreq)

theorem nodup (h : SortedRequests blk seqnums all) : (all.map (·.resultIdx)).Nodup := by
  obtain ⟨reqs, hreqs, hperm⟩ := h.requested
  rw [(hperm.map _).nodup_iff, readRequests_resultIdx hreqs]
  exact List.nodup_range

/-- Every position has its request. -/
theorem exists_resultIdx (h : SortedRequests blk seqnums all) {i : Nat} (hi : i < seqnums.length) :
    ∃ req ∈ all, req.resultIdx = i := by
  obtain ⟨reqs, hreqs, hperm⟩ := h.requested
  have hmem : i ∈ all.map (·.resultIdx) := by
    rw [(hperm.map _).mem_iff, readRequests_resultIdx hreqs]
    exact List.mem_range.mpr hi
  obtain ⟨req, hreq, rfl⟩ := List.mem_map.mp hmem
  exact ⟨req, hreq, rfl⟩

theorem inv (h : SortedRequests blk seqnums all) (gapMax : Nat) (hfit : blk.ExtentsFit) :
    (coalesce gapMax all).Inv gapMax all all := by
  apply coalesce_inv h.sorted
  intro req hreq
  obtain ⟨-, col, hcol, -, hlen⟩ := h.mem hreq
  rw [hlen]
  exact (hfit.getElem? hcol).2

theorem reads_fit (h : SortedRequests blk seqnums all) (gapMax : Nat) (hfit : blk.ExtentsFit) :
    ∀ cr ∈ (coalesce gapMax all).reads, cr.offset < 2 ^ 32 ∧ cr.length < 2 ^ 32 := by
  intro cr hcr
  have hsane := (h.inv gapMax hfit).sane
  obtain ⟨req, hreq, hoff⟩ := hsane.offset_mem cr hcr
  obtain ⟨-, col, hcol, hreqoff, -⟩ := h.mem hreq
  rw [← hoff, hreqoff]
  exact ⟨(hfit.getElem? hcol).1, hsane.length_lt cr hcr⟩

/-- Decoding one of the requests from the bytes of the merged ranges. -/
theorem decode_eq_ok (h : SortedRequests blk seqnums all) (hfit : blk.ExtentsFit)
    {content : List Byte} {datas : List (List Byte)}
    (hdatas : List.Forall₂ (fun cr data => slice? content cr.offset cr.length = some data)
      (coalesce gapMax all).reads datas)
    {p : ReadReq × Nat} (hp : p ∈ all.zip (coalesce gapMax all).reqToCoalesced) {y : Nat × DecodedColumn} :
    decodeRequest lz4 blk (coalesce gapMax all).reads datas p.1 p.2 = .ok y ↔
      ∃ col cr decoded, blk.columns[p.1.seq]? = some col ∧
        (coalesce gapMax all).reads[p.2]? = some cr ∧ p.1.stop ≤ cr.stop ∧
        Stores lz4 content col.location decoded ∧ y = (p.1.resultIdx, decoded) := by
  obtain ⟨cr, hcr, hstart⟩ := (h.inv gapMax hfit).sane.starts.mapped p hp
  obtain ⟨-, col, hcol, hoff, hlen⟩ := h.mem (List.of_mem_zip hp).1
  obtain ⟨data, hdata, hslice⟩ := getElem?_of_forall₂ hdatas.flip hcr
  have hcolfit := hfit.getElem? hcol
  rw [decodeRequest_eq_ok]
  constructor
  · rintro ⟨col', cr', data', decoded, hcol', hcr', hdata', hdecoded, rfl⟩
    obtain rfl := Option.some.inj (hcol.symm.trans hcol')
    obtain rfl := Option.some.inj (hcr.symm.trans hcr')
    obtain rfl := Option.some.inj (hdata.symm.trans hdata')
    obtain ⟨hin, hstores⟩ := (sliceColumn_eq_ok hslice hstart hoff hlen hcolfit).mp hdecoded
    exact ⟨col, cr, decoded, hcol, hcr, hin, hstores, rfl⟩
  · rintro ⟨col', cr', decoded, hcol', hcr', hin, hstores, rfl⟩
    obtain rfl := Option.some.inj (hcol.symm.trans hcol')
    obtain rfl := Option.some.inj (hcr.symm.trans hcr')
    exact ⟨col, cr, data, decoded, hcol, hcr, hdata,
      (sliceColumn_eq_ok hslice hstart hoff hlen hcolfit).mpr ⟨hin, hstores⟩, rfl⟩

end SortedRequests

/-- The reads and the decoding succeed together. -/
theorem readSorted_eq_ok (hfs : fs.ThrowsPastEnd) (hr : r.Ready) (hfit : blk.ExtentsFit)
    (h : SortedRequests blk seqnums all) {n : Nat} {cols : List DecodedColumn} :
    (r.readSorted fs lz4 gapMax blk n all).2 = .ok cols ↔
      ∃ datas results,
        List.Forall₂ (fun cr data => slice? r.content cr.offset cr.length = some data)
          (coalesce gapMax all).reads datas ∧
        List.Forall₂ (fun p y => decodeRequest lz4 blk (coalesce gapMax all).reads datas p.1 p.2 = .ok y)
          (all.zip (coalesce gapMax all).reqToCoalesced) results ∧
        cols = placeResults n results := by
  obtain ⟨r', res, hread, -, hres⟩ := readRanges_ready hfs hr (h.reads_fit gapMax hfit)
  simp only [TAEObjectReader.readSorted, hread]
  cases res with
  | error e =>
      refine ⟨nofun, fun ⟨datas, _, hdatas, _⟩ => ?_⟩
      cases (hres datas).mpr hdatas
  | ok datas =>
      have hdatas := (hres datas).mp rfl
      simp only
      constructor
      · intro hmap
        cases hresults : (all.zip (coalesce gapMax all).reqToCoalesced).mapM fun p =>
            decodeRequest lz4 blk (coalesce gapMax all).reads datas p.1 p.2 with
        | error e =>
            rw [hresults] at hmap
            cases hmap
        | ok results =>
            rw [hresults] at hmap
            exact ⟨datas, results, hdatas, mapM_eq_ok.mp hresults, (Except.ok.inj hmap).symm⟩
      · rintro ⟨datas', results, hdatas', hresults, rfl⟩
        obtain rfl := Except.ok.inj ((hres datas').mpr hdatas')
        rw [mapM_eq_ok.mpr hresults]
        rfl

/-- What comes back is, position by position, what the individual reads return,
    and no merged range reached 2^32 bytes. -/
theorem readSorted_sound (hfs : fs.ThrowsPastEnd) (hr : r.Ready) (hfit : blk.ExtentsFit)
    (h : SortedRequests blk seqnums all) {cols : List DecodedColumn}
    (hok : (r.readSorted fs lz4 gapMax blk seqnums.length all).2 = .ok cols) :
    (∀ req ∈ all, req.Short gapMax all) ∧
      List.Forall₂ (fun seq decoded => r.readColumnAlone fs lz4 blk seq = .ok decoded) seqnums cols := by
  obtain ⟨datas, results, hdatas, hresults, rfl⟩ := (readSorted_eq_ok hfs hr hfit h).mp hok
  have hinv := h.inv gapMax hfit
  have hzip := hinv.sane.starts.length_eq
  have hdecoded : ∀ p ∈ all.zip (coalesce gapMax all).reqToCoalesced, ∃ y ∈ results,
      ∃ col cr decoded, blk.columns[p.1.seq]? = some col ∧
        (coalesce gapMax all).reads[p.2]? = some cr ∧ p.1.stop ≤ cr.stop ∧
        Stores lz4 r.content col.location decoded ∧ y = (p.1.resultIdx, decoded) := by
    intro p hp
    obtain ⟨i, hi⟩ := List.mem_iff_getElem?.mp hp
    obtain ⟨y, hy, hdecode⟩ := getElem?_of_forall₂ hresults.flip hi
    exact ⟨y, List.mem_of_getElem? hy, (h.decode_eq_ok hfit hdatas hp).mp hdecode⟩
  refine ⟨?_, ?_⟩
  · rcases hinv.run with ⟨-, hshort⟩ | ⟨⟨p, hp, cr, hcr, hout⟩, -⟩
    · exact hshort
    · -- a request that sticks out of its range is not decoded
      obtain ⟨-, -, -, cr', -, -, hcr', hin, -⟩ := hdecoded p hp
      obtain rfl := Option.some.inj (hcr.symm.trans hcr')
      have hlen := hinv.sane.length_lt cr (List.mem_of_getElem? hcr)
      rw [CoalescedRead.stop] at hin
      omega
  · have hpositions : results.map (·.1) = all.map (·.resultIdx) := by
      rw [← List.map_fst_zip (Nat.le_of_eq hzip), List.map_map]
      refine (map_eq_map_of_forall₂ hresults fun p y hdecode => ?_).symm
      obtain ⟨-, -, -, -, -, -, -, -, rfl⟩ := decodeRequest_eq_ok.mp hdecode
      rfl
    have hlength : (placeResults seqnums.length results).length = seqnums.length := by
      rw [placeResults, foldl_set_length, List.length_replicate]
    refine List.forall₂_of_length_eq_of_get hlength.symm fun i hi hi' => ?_
    obtain ⟨req, hreq, hidx⟩ := h.exists_resultIdx hi
    obtain ⟨hseq, -⟩ := h.mem hreq
    obtain ⟨k, hk⟩ : ∃ k, (req, k) ∈ all.zip (coalesce gapMax all).reqToCoalesced := by
      rw [← List.map_fst_zip (Nat.le_of_eq hzip), List.mem_map] at hreq
      obtain ⟨⟨_, k⟩, hp, rfl⟩ := hreq
      exact ⟨k, hp⟩
    obtain ⟨y, hy, col, cr, decoded, hcol, -, -, hstores, rfl⟩ := hdecoded _ hk
    have hplaced : (placeResults seqnums.length results)[req.resultIdx]? = some decoded := by
      refine foldl_set_of_mem (hpositions ▸ h.nodup) hy ?_
      rw [List.length_replicate, hidx]
      exact hi
    rw [hidx] at hseq hplaced
    rw [List.get_eq_getElem, List.get_eq_getElem, (List.getElem?_eq_some_iff.mp hseq).2,
      (List.getElem?_eq_some_iff.mp hplaced).2]
    exact (readColumnAlone_eq_ok hfs hr hfit).mpr ⟨col, hcol, hstores⟩

/-- As long as no range reaches 2^32 bytes, columns that can be read one by one
    are read. -/
theorem readSorted_total (hfs : fs.ThrowsPastEnd) (hr : r.Ready) (hfit : blk.ExtentsFit)
    (h : SortedRequests blk seqnums all) (hshort : ∀ req ∈ all, req.Short gapMax all)
    (halone : ∀ seq ∈ seqnums, ∃ decoded, r.readColumnAlone fs lz4 blk seq = .ok decoded) (n : Nat) :
    ∃ cols, (r.readSorted fs lz4 gapMax blk n all).2 = .ok cols := by
  have hinv := h.inv gapMax hfit
  have hexact : (coalesce gapMax all).Exact gapMax all all := by
    rcases hinv.run with ⟨hexact, -⟩ | ⟨-, req, hreq, hlong⟩
    · exact hexact
    · exact absurd (hshort req hreq) hlong
  have hstored : ∀ req ∈ all, ∃ col decoded, blk.columns[req.seq]? = some col ∧
      req.offset = col.location.offset ∧ req.length = col.location.length ∧
      Stores lz4 r.content col.location decoded := by
    intro req hreq
    obtain ⟨hseq, col, hcol, hoff, hlen⟩ := h.mem hreq
    obtain ⟨decoded, hread⟩ := halone req.seq (List.mem_of_getElem? hseq)
    obtain ⟨col', hcol', hstores⟩ := (readColumnAlone_eq_ok hfs hr hfit).mp hread
    obtain rfl := Option.some.inj (hcol.symm.trans hcol')
    exact ⟨col, decoded, hcol, hoff, hlen, hstores⟩
  -- every range ends with a request, so it ends inside the content
  have hdatas : List.Forall₂ (fun cr data => slice? r.content cr.offset cr.length = some data)
      (coalesce gapMax all).reads
      ((coalesce gapMax all).reads.map fun cr => (r.content.drop cr.offset).take cr.length) := by
    rw [List.forall₂_map_right_iff, List.forall₂_same]
    intro cr hcr
    obtain ⟨req, hreq, hstop⟩ := hexact.ends cr hcr
    obtain ⟨col, _, -, hoff, hlen, raw, hraw, -⟩ := hstored req hreq
    obtain ⟨hin, -⟩ := slice?_eq_some.mp hraw
    apply slice?_of_le
    rw [ReadReq.stop, CoalescedRead.stop] at hstop
    omega
  obtain ⟨results, hresults⟩ := exists_mapM_ok.mpr fun p
      (hp : p ∈ all.zip (coalesce gapMax all).reqToCoalesced) => by
    obtain ⟨cr, hcr, hin⟩ := hexact.covers.mapped p hp
    obtain ⟨col, decoded, hcol, -, -, hstores⟩ := hstored p.1 (List.of_mem_zip hp).1
    exact ⟨(p.1.resultIdx, decoded),
      (h.decode_eq_ok hfit hdatas hp).mpr ⟨col, cr, decoded, hcol, hcr, hin, hstores, rfl⟩⟩
  exact ⟨_, (readSorted_eq_ok hfs hr hfit h).mpr ⟨_, results, hdatas, mapM_eq_ok.mp hresults, rfl⟩⟩

end Sorted

-- ============================================================================
-- What ReadMeta leaves
-- ============================================================================

theorem Extent.ofBytes_lt (bs : List Byte) :
    (Extent.ofBytes bs).offset < 2 ^ 32 ∧ (Extent.ofBytes bs).length < 2 ^ 32 := by
  have hfield : ∀ xs : List Byte, leNat (xs.take 4) < 2 ^ 32 := fun xs => by
    refine Nat.lt_of_lt_of_le (leNat_lt _) ?_
    calc 256 ^ (xs.take 4).length ≤ 256 ^ 4 := Nat.pow_le_pow_right (by decide) (List.length_take_le ..)
      _ = 2 ^ 32 := by decide
  exact ⟨hfield _, hfield _⟩

/-- Parsed extents fit their fields. -/
theorem parseBlockAt_extentsFit {dm : List Byte} {blkOffset blkLength : Nat}
    (h : parseBlockAt dm blkOffset blkLength = .ok blk) : blk.ExtentsFit := by
  rw [parseBlockAt] at h
  obtain ⟨_, -, h⟩ := bind_eq_ok.mp h
  obtain ⟨_, -, h⟩ := bind_eq_ok.mp h
  obtain ⟨_, -, h⟩ := bind_eq_ok.mp h
  obtain ⟨_, -, h⟩ := bind_eq_ok.mp h
  obtain ⟨columns, hcolumns, h⟩ := bind_eq_ok.mp h
  obtain rfl := Except.ok.inj h
  intro col hcol
  obtain ⟨i, hi⟩ := List.mem_iff_getElem?.mp hcol
  obtain ⟨c, -, hparse⟩ := getElem?_of_forall₂ (mapM_eq_ok.mp hcolumns) hi
  rw [parseColumn] at hparse
  obtain ⟨_, -, hparse⟩ := bind_eq_ok.mp hparse
  obtain ⟨_, -, hparse⟩ := bind_eq_ok.mp hparse
  obtain ⟨_, -, hparse⟩ := bind_eq_ok.mp hparse
  obtain ⟨_, -, hparse⟩ := bind_eq_ok.mp hparse
  obtain ⟨location, -, hparse⟩ := bind_eq_ok.mp hparse
  obtain ⟨_, -, hparse⟩ := bind_eq_ok.mp hparse
  obtain ⟨_, -, hparse⟩ := bind_eq_ok.mp hparse
  obtain rfl := Except.ok.inj hparse
  exact Extent.ofBytes_lt location

theorem parseMetadata_extentsFit {buf : List Byte} {md : ObjectMeta} (h : parseMetadata buf = .ok md) :
    ∀ blk ∈ md.blocks, blk.ExtentsFit := by
  unfold parseMetadata at h
  obtain ⟨found, -, h⟩ := bind_eq_ok.mp h
  cases found with
  | none =>
      obtain rfl := Except.ok.inj h
      exact nofun
  | some d =>
      obtain ⟨blks, hblks, h⟩ := bind_eq_ok.mp h
      obtain rfl := Except.ok.inj h
      intro blk hblk
      obtain ⟨i, hi⟩ := List.mem_iff_getElem?.mp hblk
      obtain ⟨b, -, hparse⟩ := getElem?_of_forall₂ (mapM_eq_ok.mp hblks) hi
      unfold DataMeta.parseBlock at hparse
      obtain ⟨_, -, hparse⟩ := bind_eq_ok.mp hparse
      obtain ⟨_, -, hparse⟩ := bind_eq_ok.mp hparse
      obtain ⟨_, -, hparse⟩ := bind_eq_ok.mp hparse
      obtain ⟨_, -, hparse⟩ := bind_eq_ok.mp hparse
      exact parseBlockAt_extentsFit hparse

/-- A metadata section that is accepted holds metadata that parses. -/
theorem parseMetaSection_parses {ext : Extent} {raw : List Byte} {md : ObjectMeta}
    (h : parseMetaSection lz4 ext raw = .ok md) : ∃ buf, parseMetadata buf = .ok md := by
  have hstrip : ∀ metaBuf : List Byte, (do
      refuseIf (metaBuf.length < ioEntryHeaderLen) "metadata too small"
      refuseIf (leNat (metaBuf.take 2) ≠ ioetObjMeta)
        ("expected IOET_ObjMeta, got " ++ toString (leNat (metaBuf.take 2)))
      parseMetadata (metaBuf.drop ioEntryHeaderLen)) = .ok md → ∃ buf, parseMetadata buf = .ok md := by
    intro metaBuf h
    obtain ⟨_, -, h⟩ := bind_eq_ok.mp h
    obtain ⟨_, -, h⟩ := bind_eq_ok.mp h
    exact ⟨_, h⟩
  simp only [parseMetaSection] at h
  split at h
  · obtain ⟨metaBuf, -, h⟩ := bind_eq_ok.mp h
    exact hstrip metaBuf h
  · obtain ⟨metaBuf, -, h⟩ := bind_eq_ok.mp h
    exact hstrip metaBuf h

/-- `ReadMeta` leaves a reader and metadata that `ReadBlock` can work with. -/
theorem readMeta_ready (hfs : fs.ThrowsPastEnd) (h : r.Opened) {r' : TAEObjectReader} {md : ObjectMeta}
    (hok : r.readMeta fs lz4 = (r', .ok md)) : r'.Ready ∧ ∀ blk ∈ md.blocks, blk.ExtentsFit := by
  rw [TAEObjectReader.readMeta] at hok
  split at hok
  · cases hok
  · next r₁ hdr hheader =>
      have hready := TAEObjectReader.readBytes_opened hfs h (by decide) (by decide) hheader
      split at hok
      · cases hok
      · obtain ⟨hoff, hlen⟩ := Extent.ofBytes_lt ((hdr.drop headerMetaExtentOff).take extentLen)
        obtain ⟨r₂, res, hread, hcont, -⟩ := TAEObjectReader.readBytes_ready hfs hready hoff hlen
        simp only [hread] at hok
        cases res with
        | error e => cases hok
        | ok raw =>
            obtain ⟨rfl, hparse⟩ := Prod.mk.inj hok
            refine ⟨hcont.ready, ?_⟩
            obtain ⟨buf, hbuf⟩ := parseMetaSection_parses hparse
            exact parseMetadata_extentsFit hbuf

-- ============================================================================
-- ReadBlock
-- ============================================================================

/-- `ReadBlock` returns the columns that the individual reads return, and throws
    iff one of them fails. -/
def ReadsAlike (fs : FileSystem) (lz4 : LZ4) (sort : OffsetSort) (gapMax : Nat) (r : TAEObjectReader)
    (md : ObjectMeta) (blockIdx : Nat) (seqnums : List Nat) : Prop :=
  ∀ cols, r.readBlockAlone fs lz4 md blockIdx seqnums = .ok cols ↔
    (r.readBlock fs lz4 sort gapMax md blockIdx seqnums).2 = .ok cols

variable {sort : OffsetSort} {gapMax : Nat} {md : ObjectMeta} {blockIdx : Nat}

/-- Sorting requests. -/
theorem OffsetSort.sortedRequests (sort : OffsetSort) {reqs : List ReadReq}
    (h : readRequests blk seqnums = .ok reqs) : SortedRequests blk seqnums (sort.sort reqs) :=
  ⟨⟨reqs, h, sort.perm reqs⟩, sort.sorted reqs⟩

/-- Columns that can be read one by one can be requested. -/
theorem exists_readRequests (halone : ∀ seq ∈ seqnums, ∃ decoded,
    r.readColumnAlone fs lz4 blk seq = .ok decoded) : ∃ reqs, readRequests blk seqnums = .ok reqs := by
  apply exists_mapM_ok.mpr
  intro p hp
  have hseq : seqnums[p.2]? = some p.1 := List.mem_zipIdx_iff_getElem?.mp hp
  obtain ⟨decoded, hread⟩ := halone p.1 (List.mem_of_getElem? hseq)
  rw [TAEObjectReader.readColumnAlone] at hread
  cases hcol : blk.columns[p.1]? with
  | none =>
      rw [hcol] at hread
      cases hread
  | some col => exact ⟨⟨p.1, p.2, col.location.offset, col.location.length⟩, by simp only [hcol]⟩

/-- `ReadBlock` returns what the individual reads return, as long as no merged
    range reaches 2^32 bytes. -/
theorem readBlock_eq_ok_iff (hfs : fs.ThrowsPastEnd) (hr : r.Ready)
    (hfit : ∀ blk ∈ md.blocks, blk.ExtentsFit) {cols : List DecodedColumn} :
    (r.readBlock fs lz4 sort gapMax md blockIdx seqnums).2 = .ok cols ↔
      r.readBlockAlone fs lz4 md blockIdx seqnums = .ok cols ∧
        ∀ blk, md.blocks[blockIdx]? = some blk → blk.ShortRanges gapMax seqnums := by
  rw [TAEObjectReader.readBlock, TAEObjectReader.readBlockAlone]
  cases hblk : md.blocks[blockIdx]? with
  | none => exact ⟨nofun, fun h => nomatch h.1⟩
  | some blk =>
      have hblkfit := hfit blk (List.mem_of_getElem? hblk)
      simp only [Option.some.injEq, forall_eq', mapM_eq_ok]
      constructor
      · intro hok
        cases hreqs : readRequests blk seqnums with
        | error e =>
            rw [hreqs] at hok
            cases hok
        | ok reqs =>
            rw [hreqs] at hok
            have hmem : ∀ req, req ∈ sort.sort reqs ↔ req ∈ reqs := fun req => (sort.perm reqs).mem_iff
            obtain ⟨hshort, hcols⟩ := readSorted_sound hfs hr hblkfit (sort.sortedRequests hreqs) hok
            refine ⟨hcols, fun reqs' hreqs' req hreq => ?_⟩
            obtain rfl := Except.ok.inj (hreqs.symm.trans hreqs')
            exact (ReadReq.Short.congr hmem).mp (hshort req ((hmem req).mpr hreq))
      · rintro ⟨hcols, hshort⟩
        have halone : ∀ seq ∈ seqnums, ∃ decoded, r.readColumnAlone fs lz4 blk seq = .ok decoded :=
          exists_mapM_ok.mp ⟨cols, mapM_eq_ok.mpr hcols⟩
        obtain ⟨reqs, hreqs⟩ := exists_readRequests halone
        have hmem : ∀ req, req ∈ sort.sort reqs ↔ req ∈ reqs := fun req => (sort.perm reqs).mem_iff
        have hsorted := sort.sortedRequests hreqs
        have hshort' : ∀ req ∈ sort.sort reqs, req.Short gapMax (sort.sort reqs) := fun req hreq =>
          (ReadReq.Short.congr hmem).mpr (hshort reqs hreqs req ((hmem req).mp hreq))
        obtain ⟨cols', hok⟩ := readSorted_total hfs hr hblkfit hsorted hshort' halone seqnums.length
        have hcols' := mapM_eq_ok.mpr (readSorted_sound hfs hr hblkfit hsorted hok).2
        obtain rfl := Except.ok.inj ((mapM_eq_ok.mpr hcols).symm.trans hcols')
        simp only [hreqs]
        exact hok

/-- `ReadBlock` leaves a reader over the same content. -/
theorem readBlock_continues (hfs : fs.ThrowsPastEnd) (hr : r.Ready)
    (hfit : ∀ blk ∈ md.blocks, blk.ExtentsFit) :
    r.Continues (r.readBlock fs lz4 sort gapMax md blockIdx seqnums).1 := by
  rw [TAEObjectReader.readBlock]
  cases hblk : md.blocks[blockIdx]? with
  | none => exact ⟨hr, rfl⟩
  | some blk =>
      cases hreqs : readRequests blk seqnums with
      | error e =>
          simp only [hreqs]
          exact ⟨hr, rfl⟩
      | ok reqs =>
          have hsorted := sort.sortedRequests hreqs
          obtain ⟨r', res, hread, hcont, -⟩ := readRanges_ready hfs hr
            (hsorted.reads_fit gapMax (hfit blk (List.mem_of_getElem? hblk)))
          simp only [hreqs, TAEObjectReader.readSorted, hread]
          cases res with
          | error e => exact hcont
          | ok datas => exact hcont

/-- Coalescing is invisible iff an individual read or decode fails anyway or no
    merged range reaches 2^32 bytes. -/
theorem readBlock_readsAlike_iff (fs : FileSystem) (lz4 : LZ4) (sort : OffsetSort) (gapMax : Nat)
    (r : TAEObjectReader) (md : ObjectMeta) (blockIdx : Nat) (seqnums : List Nat)
    (hfs : fs.ThrowsPastEnd) (hr : r.Ready) (hfit : ∀ blk ∈ md.blocks, blk.ExtentsFit) :
    ReadsAlike fs lz4 sort gapMax r md blockIdx seqnums ↔
      (∃ e, r.readBlockAlone fs lz4 md blockIdx seqnums = .error e) ∨
        ∀ blk, md.blocks[blockIdx]? = some blk → blk.ShortRanges gapMax seqnums := by
  simp only [ReadsAlike, readBlock_eq_ok_iff hfs hr hfit]
  constructor
  · intro h
    cases halone : r.readBlockAlone fs lz4 md blockIdx seqnums with
    | error e => exact Or.inl ⟨e, rfl⟩
    | ok cols => exact Or.inr ((h cols).mp halone).2
  · rintro (⟨e, herr⟩ | hshort) cols
    · rw [herr]
      exact ⟨nofun, fun h => nomatch h.1⟩
    · exact ⟨fun h => ⟨h, hshort⟩, And.left⟩

end

-- ============================================================================
-- Two adjacent columns
-- ============================================================================

/-- Sorting by offset. -/
def OffsetSort.merge : OffsetSort where
  sort reqs := reqs.mergeSort fun a b => decide (a.offset ≤ b.offset)
  perm reqs := List.mergeSort_perm reqs _
  sorted reqs := by
    have htrans : ∀ a b c : ReadReq, decide (a.offset ≤ b.offset) = true →
        decide (b.offset ≤ c.offset) = true → decide (a.offset ≤ c.offset) = true := fun a b c hab hbc =>
      decide_eq_true (Nat.le_trans (of_decide_eq_true hab) (of_decide_eq_true hbc))
    have htotal : ∀ a b : ReadReq, (decide (a.offset ≤ b.offset) || decide (b.offset ≤ a.offset)) = true :=
      fun a b => by simpa using Nat.le_total a.offset b.offset
    exact (List.pairwise_mergeSort htrans htotal reqs).imp of_decide_eq_true

/-- A decompressor that accepts nothing. -/
def LZ4.refusing : LZ4 where
  decompressSafe _ capacity := (-1, List.replicate capacity 0)
  length_eq _ _ := List.length_replicate ..

/-- A vector of one value. -/
def oneValue : VectorSections where
  vecClass := 0
  type := [22, 0, 0, 0, 4, 0, 0, 0, 0, 0, 0, 0, 0, 0, 0, 0]
  length := 1
  data := [7, 0, 0, 0]
  area := []
  nsp := []
  sorted := 0

/-- The vector as stored, with bytes behind it that nobody reads. -/
def storedValue (pad : Nat) : List Byte := [2, 0, 1, 0] ++ (oneValue.layout ++ List.replicate pad 0)

/-- An object header. -/
def bareHeader : List Byte := [255, 255, 255, 255] ++ List.replicate 60 0

/-- A reader of a file with the value stored twice. -/
def adjacentReader (pad : Nat) : TAEObjectReader where
  file := bareHeader ++ (storedValue pad ++ storedValue pad)
  prefetchThreshold := 0
  formatDetected := true

/-- The block of the two columns. -/
def adjacentBlock (pad : Nat) : BlockInfo where
  rows := 1
  columns := [
    { location := ⟨0, 64, 42 + pad, 42 + pad⟩, zoneMap := .zero },
    { location := ⟨0, 64 + (42 + pad), 42 + pad, 42 + pad⟩, zoneMap := .zero }]

def adjacentMeta (pad : Nat) : ObjectMeta := ⟨[adjacentBlock pad]⟩

section Adjacent
variable {pad : Nat}

theorem storedValue_length : (storedValue pad).length = 42 + pad := by
  have hlayout : oneValue.layout.length = 38 := rfl
  simp only [storedValue, List.length_append, List.length_replicate, hlayout, List.length_cons,
    List.length_nil]
  omega

theorem decodeColumn_storedValue {lz4 : LZ4} {ext : Extent} (h : ext.isCompressed = false) :
    ∃ decoded, decodeColumn lz4 ext (storedValue pad) = .ok decoded := by
  have hfits : oneValue.Fits := ⟨rfl, by decide, by decide, by decide, by decide⟩
  have hnulls : decodeNulls oneValue.nsp = .ok (0, []) := rfl
  rw [storedValue, decodeColumn_plain h rfl rfl, decodeVector_layout hfits _ hnulls]
  exact ⟨_, rfl⟩

theorem adjacentReader_ready (h : pad < 2 ^ 32) : (adjacentReader pad).Ready := by
  refine ⟨rfl, ?_, Or.inl rfl⟩
  have hheader : bareHeader.length = 64 := rfl
  simp only [adjacentReader, List.length_append, storedValue_length, hheader]
  omega

theorem adjacentMeta_extentsFit (h : 106 + pad < 2 ^ 32) :
    ∀ blk ∈ (adjacentMeta pad).blocks, blk.ExtentsFit := by
  intro blk hblk col hcol
  obtain rfl := List.mem_singleton.mp hblk
  rcases List.mem_pair.mp hcol with rfl | rfl
  · exact ⟨show 64 < 2 ^ 32 by decide, show 42 + pad < 2 ^ 32 by omega⟩
  · exact ⟨show 64 + (42 + pad) < 2 ^ 32 by omega, show 42 + pad < 2 ^ 32 by omega⟩

/-- Both columns can be read one by one. -/
theorem adjacent_alone (lz4 : LZ4) (h : 106 + pad < 2 ^ 32) : ∃ cols,
    (adjacentReader pad).readBlockAlone .positional lz4 (adjacentMeta pad) 0 [0, 1] = .ok cols := by
  have hcontent : (adjacentReader pad).content = bareHeader ++ (storedValue pad ++ storedValue pad) := rfl
  have hfit := adjacentMeta_extentsFit h _ (List.mem_singleton_self _)
  have hstored : ∀ off len : Nat,
      slice? (adjacentReader pad).content off len = some (storedValue pad) →
      ∃ decoded, Stores lz4 (adjacentReader pad).content ⟨0, off, len, len⟩ decoded := by
    intro off len hslice
    have hplain : (⟨0, off, len, len⟩ : Extent).isCompressed = false := rfl
    obtain ⟨decoded, hdecode⟩ := decodeColumn_storedValue hplain
    exact ⟨decoded, _, hslice, hdecode⟩
  apply exists_mapM_ok.mpr
  intro seq hseq
  have hready : (adjacentReader pad).Ready := adjacentReader_ready (by omega)
  suffices hcol : ∃ decoded col, (adjacentBlock pad).columns[seq]? = some col ∧
      Stores lz4 (adjacentReader pad).content col.location decoded by
    obtain ⟨decoded, hcol⟩ := hcol
    exact ⟨decoded, (readColumnAlone_eq_ok FileSystem.positional_throwsPastEnd hready hfit).mpr hcol⟩
  rcases List.mem_pair.mp hseq with rfl | rfl
  · have hfirst : slice? (adjacentReader pad).content 64 (42 + pad) = some (storedValue pad) :=
      slice?_part rfl storedValue_length
    obtain ⟨decoded, hdecoded⟩ := hstored _ _ hfirst
    exact ⟨decoded, _, rfl, hdecoded⟩
  · have hlast : slice? (adjacentReader pad).content (64 + (42 + pad)) (42 + pad)
        = some (storedValue pad) := by
      have hpre : (bareHeader ++ storedValue pad).length = 64 + (42 + pad) := by
        rw [List.length_append, storedValue_length]
        rfl
      rw [hcontent, ← List.append_assoc]
      exact slice?_suffix hpre storedValue_length
    obtain ⟨decoded, hdecoded⟩ := hstored _ _ hlast
    exact ⟨decoded, _, rfl, hdecoded⟩

theorem adjacent_requests : readRequests (adjacentBlock pad) [0, 1]
    = .ok [⟨0, 0, 64, 42 + pad⟩, ⟨1, 1, 64 + (42 + pad), 42 + pad⟩] := rfl

/-- The two columns share one range, which starts at the first of them. -/
theorem adjacent_shortRanges_iff : (adjacentBlock pad).ShortRanges 0 [0, 1] ↔ 2 * (42 + pad) < 2 ^ 32 := by
  constructor
  · intro h
    obtain ⟨s, ⟨⟨req, hreq, rfl⟩, hgap⟩, -, hstop⟩ := h _ adjacent_requests ⟨1, 1, 64 + (42 + pad), 42 + pad⟩
      (by simp)
    have hfirst := hgap ⟨0, 0, 64, 42 + pad⟩ (by simp)
    simp only [ReadReq.stop] at hfirst hstop
    rcases List.mem_pair.mp hreq with rfl | rfl
    · simp only at hstop
      omega
    · simp only at hfirst
      omega
  · intro h reqs hreqs
    obtain rfl := Except.ok.inj (adjacent_requests.symm.trans hreqs)
    have hstart : RangeStart 0 [⟨0, 0, 64, 42 + pad⟩, ⟨1, 1, 64 + (42 + pad), 42 + pad⟩] 64 := by
      refine ⟨⟨_, List.mem_cons_self, rfl⟩, fun req hreq hlt => ?_⟩
      rcases List.mem_pair.mp hreq with rfl | rfl
      · exact absurd hlt (Nat.lt_irrefl 64)
      · simp only at hlt
        omega
    intro req hreq
    refine ⟨64, hstart, ?_⟩
    simp only [ReadReq.stop]
    rcases List.mem_pair.mp hreq with rfl | rfl
    · exact ⟨Nat.le_refl 64, by simp only; omega⟩
    · exact ⟨Nat.le_add_right 64 _, by simp only; omega⟩

end Adjacent

/-- Two short columns are read as one by one. -/
theorem shortColumns_readAlike : ReadsAlike .positional .refusing .merge 0 (adjacentReader 0)
    (adjacentMeta 0) 0 [0, 1] := by
  refine (readBlock_readsAlike_iff _ _ _ _ _ _ _ _ FileSystem.positional_throwsPastEnd
    (adjacentReader_ready (by decide)) (adjacentMeta_extentsFit (by decide))).mpr (Or.inr ?_)
  intro blk hblk
  obtain rfl := Option.some.inj hblk
  exact adjacent_shortRanges_iff.mpr (by decide)

/-- Two columns of 2^31 bytes each: both can be read, but the length of the
    merged range wraps around to 0 and `ReadBlock` refuses to slice them out. -/
theorem longColumns_not_readAlike : ¬ReadsAlike .positional .refusing .merge 0
    (adjacentReader (2 ^ 31 - 42)) (adjacentMeta (2 ^ 31 - 42)) 0 [0, 1] := by
  intro halike
  obtain ⟨cols, halone⟩ := adjacent_alone .refusing (show 106 + (2 ^ 31 - 42) < 2 ^ 32 by decide)
  have hblock := (halike cols).mp halone
  have hshort := ((readBlock_eq_ok_iff FileSystem.positional_throwsPastEnd
    (adjacentReader_ready (by decide)) (adjacentMeta_extentsFit (by decide))).mp hblock).2 _ rfl
  exact absurd (adjacent_shortRanges_iff.mp hshort) (by decide)


end TaeScanner
