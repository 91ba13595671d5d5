import Zkrnl32.Multiboot.MemoryMap

/-!
# Walking the Memory Map

What the iterator does over whole walks of an arbitrary buffer.

- `Visits` is the chain of entry offsets that the buffer describes by its own `size`
  fields, with no reference to the iterator.
- `walkEnds_iff_stridesFit`: the walk advances and ends exactly on the buffers all of
  whose chained headers have a stride below `2 ^ 32`.
- `decode_encode`: on an encoded list of entries the walk yields exactly that list.
-/

namespace Zkrnl32.Multiboot

open Zkrnl32.Machine

/-! ## The chain of entries -/

/-- `Visits bytes offset`: the chain of self-described strides from offset 0 leads to
    `offset`. -/
inductive Visits (bytes : List U8) : Nat → Prop where
  | start : Visits bytes 0
  | stride {offset : Nat} {entry : MmapEntry} :
      Visits bytes offset → entryAt bytes offset = some entry →
      Visits bytes (offset + (entry.size.toNat + 4))

/-- Every chained header has a stride that fits a 32-bit `usize`. -/
def StridesFit (bytes : List U8) : Prop :=
  ∀ offset entry, Visits bytes offset → entryAt bytes offset = some entry →
    entry.size.toNat + 4 < 2 ^ 32

/-- Every chained header has a `size` between 20 (the rest of an entry) and `2 ^ 32 - 5`. -/
def WellFormed (bytes : List U8) : Prop :=
  ∀ offset entry, Visits bytes offset → entryAt bytes offset = some entry →
    20 ≤ entry.size.toNat ∧ entry.size.toNat ≤ 2 ^ 32 - 5

theorem WellFormed.stridesFit {bytes : List U8} (h : WellFormed bytes) : StridesFit bytes := by
  intro offset entry hv he
  have := h offset entry hv he
  omega

/-- Where a walk can stand: on the chain, or past the last whole entry. -/
def OnChain (bytes : List U8) (offset : Nat) : Prop :=
  Visits bytes offset ∨ entryAt bytes offset = none

theorem OnChain.visits {bytes : List U8} {offset : Nat} {entry : MmapEntry}
    (h : OnChain bytes offset) (he : entryAt bytes offset = some entry) :
    Visits bytes offset := by
  rcases h with hv | hnone
  · exact hv
  · simp [hnone] at he

/-! ## Walks along a fitting chain -/

/-- One stride along the chain moves the cursor by at least 4 and stays on the chain:
    when the saturating addition saturates, both cursors are past the buffer. -/
theorem stride_onChain {buf : Slice} {offset : Nat} {entry : MmapEntry}
    (hv : Visits buf.bytes offset) (he : entryAt buf.bytes offset = some entry) :
    offset + 4 ≤ saturatingAdd 32 offset (entry.size.toNat + 4) ∧
      OnChain buf.bytes (saturatingAdd 32 offset (entry.size.toNat + 4)) := by
  have hlen := buf.length_lt
  have hoff := le_length_of_entryAt he
  unfold saturatingAdd
  by_cases hsat : offset + (entry.size.toNat + 4) ≤ 2 ^ 32 - 1
  · rw [min_eq_left hsat]
    exact ⟨by omega, Or.inl (.stride hv he)⟩
  · -- The buffer is shorter than `2 ^ 32`, so a saturated cursor finds no entry.
    rw [min_eq_right (by omega)]
    exact ⟨by omega, Or.inr (entryAt_eq_none.mpr (by omega))⟩

/-- Step lemma: on a fitting chain every call returns, advances by at least 4 when it
    yields, and stays on the chain. -/
theorem next_onChain (p : Profile) {map : MemoryMap} (hfit : StridesFit map.buf.bytes)
    (hon : OnChain map.buf.bytes map.offset) :
    ∃ item map', map.next p = .ok (item, map') ∧ map'.buf = map.buf ∧
      OnChain map.buf.bytes map'.offset ∧
      (item = none ∧ map' = map ∨
        (∃ entry, entryAt map.buf.bytes map.offset = some entry ∧ item = some entry.region) ∧
          map.offset + 4 ≤ map'.offset) := by
  cases he : entryAt map.buf.bytes map.offset with
  | none => exact ⟨none, map, next_of_none he, rfl, hon, Or.inl ⟨rfl, rfl⟩⟩
  | some entry =>
    have hv := hon.visits he
    obtain ⟨hadv, hon'⟩ := stride_onChain hv he
    exact ⟨_, _, next_of_some he (hfit _ _ hv he), rfl, hon', Or.inr ⟨⟨entry, rfl, rfl⟩, hadv⟩⟩

/-- Every iterator reached from the start stands on the chain. -/
theorem reaches_onChain {p : Profile} {buf : Slice} {map : MemoryMap}
    (hfit : StridesFit buf.bytes) (h : Reaches (MemoryMap.next p) (.start buf) map) :
    map.buf = buf ∧ OnChain buf.bytes map.offset := by
  induction h with
  | refl => exact ⟨rfl, Or.inl .start⟩
  | @step map₁ map₂ region _ hnext ih =>
    obtain ⟨hbuf, hon⟩ := ih
    subst hbuf
    obtain ⟨item, map', hnext', hbuf', hon', _⟩ := next_onChain p hfit hon
    rw [hnext'] at hnext
    cases hnext
    exact ⟨hbuf', hon'⟩

/-- Run lemma: from any point of a fitting chain the walk ends, and yields at most one
    region per 4 bytes that are left. -/
theorem exists_yields (p : Profile) (map : MemoryMap) (hfit : StridesFit map.buf.bytes)
    (hon : OnChain map.buf.bytes map.offset) :
    ∃ regions map', Yields (MemoryMap.next p) map regions map' ∧
      4 * regions.length ≤ map.buf.bytes.length - map.offset := by
  -- Induction on the bytes left before the cursor.
  induction hn : map.buf.bytes.length - map.offset using Nat.strong_induction_on
    generalizing map with
  | _ n ih =>
    obtain ⟨item, map', hnext, hbuf, hon', hcase⟩ := next_onChain p hfit hon
    rcases hcase with ⟨rfl, rfl⟩ | ⟨⟨entry, he, rfl⟩, hadv⟩
    · exact ⟨[], map', .done hnext, by simp⟩
    · have hoff := le_length_of_entryAt he
      rw [← hbuf] at hfit hon'
      obtain ⟨regions, map'', hyields, hcount⟩ :=
        ih (map'.buf.bytes.length - map'.offset) (by rw [hbuf]; omega) map' hfit hon' rfl
      refine ⟨entry.region :: regions, map'', .more hnext hyields, ?_⟩
      rw [hbuf] at hcount
      simp only [List.length_cons]
      omega

/-! ## Termination -/

/-- The termination of the walk: every call returns, every yielding call advances the
    cursor by at least 4, and the walk ends after at most `len / 4` regions. -/
structure WalkEnds (p : Profile) (buf : Slice) : Prop where
  advances : ∀ map, Reaches (MemoryMap.next p) (.start buf) map →
    ∃ item map', map.next p = .ok (item, map') ∧ (item ≠ none → map.offset + 4 ≤ map'.offset)
  finishes : ∃ regions map', Yields (MemoryMap.next p) (.start buf) regions map' ∧
    regions.length ≤ buf.bytes.length / 4

theorem walkEnds_of_stridesFit (p : Profile) {buf : Slice} (hfit : StridesFit buf.bytes) :
    WalkEnds p buf where
  advances := by
    intro map hreach
    obtain ⟨rfl, hon⟩ := reaches_onChain hfit hreach
    obtain ⟨item, map', hnext, _, _, hcase⟩ := next_onChain p hfit hon
    refine ⟨item, map', hnext, fun hitem => ?_⟩
    rcases hcase with ⟨hnone, _⟩ | ⟨_, hadv⟩
    · exact absurd hnone hitem
    · exact hadv
  finishes := by
    obtain ⟨regions, map', hyields, hcount⟩ :=
      exists_yields p (.start buf) hfit (Or.inl .start)
    refine ⟨regions, map', hyields, ?_⟩
    simp only [MemoryMap.start] at hcount
    omega

/-- A yielding call that advances by at least 4 did not overflow its stride: a wrapped
    stride is below 4. -/
theorem stride_fits_of_advance {p : Profile} {map map' : MemoryMap} {entry : MmapEntry}
    {item : Option MemoryRegion} (he : entryAt map.buf.bytes map.offset = some entry)
    (hnext : map.next p = .ok (item, map')) (hadv : item ≠ none → map.offset + 4 ≤ map'.offset) :
    entry.size.toNat + 4 < 2 ^ 32 := by
  by_contra hover
  have hsize := entry.size.isLt
  cases item with
  | none =>
    -- A call that finds an entry yields.
    rw [MemoryMap.next, he] at hnext
    obtain ⟨stride, _, hret⟩ := checked_bind_eq_ok.mp hnext
    cases hret
  | some region =>
    obtain ⟨entry', stride, he', _, hstride, rfl⟩ := next_eq_some hnext
    rw [he] at he'
    cases he'
    have hadv := hadv (by simp)
    rcases add_cases hstride with ⟨hlt, _⟩ | ⟨_, _, hwrap⟩
    · exact hover hlt
    · -- `size + 4` wrapped, so the stride is `size + 4 - 2 ^ 32`, which is below 4.
      simp only [saturatingAdd] at hadv
      omega

/-- When every reached call advances, the walk reaches every chained offset that still
    holds an entry. -/
theorem exists_reaches_of_visits {p : Profile} {buf : Slice} (h : WalkEnds p buf)
    {offset : Nat} (hv : Visits buf.bytes offset) :
    ∀ entry, entryAt buf.bytes offset = some entry →
      ∃ map, Reaches (MemoryMap.next p) (.start buf) map ∧ map.buf = buf ∧
        map.offset = offset := by
  induction hv with
  | start => exact fun _ _ => ⟨.start buf, .refl, rfl, rfl⟩
  | @stride offset entry _ he ih =>
    intro entry' he'
    obtain ⟨map, hreach, hbuf, rfl⟩ := ih entry he
    subst hbuf
    obtain ⟨item, map', hnext, hadv⟩ := h.advances map hreach
    have hfit := stride_fits_of_advance he hnext hadv
    have hnext' := next_of_some (p := p) he hfit
    refine ⟨_, .step hreach hnext', rfl, ?_⟩
    -- The next entry lies inside the buffer, so the cursor did not saturate.
    have hoff := le_length_of_entryAt he'
    have hlen := map.buf.length_lt
    simp only [saturatingAdd]
    omega

/-- The walk over a buffer ends as it should exactly when every chained header has a
    stride below `2 ^ 32`. -/
theorem walkEnds_iff_stridesFit (p : Profile) (buf : Slice) :
    WalkEnds p buf ↔ StridesFit buf.bytes := by
  refine ⟨fun h offset entry hv he => ?_, walkEnds_of_stridesFit p⟩
  obtain ⟨map, hreach, rfl, rfl⟩ := exists_reaches_of_visits h hv entry he
  obtain ⟨item, map', hnext, hadv⟩ := h.advances map hreach
  exact stride_fits_of_advance he hnext hadv

/-- A walk that ends yields at most one region per byte, whatever the strides: a stride of 0, the
    only one that does not advance, would not let it end. -/
theorem length_le_of_yields {p : Profile} {map map' : MemoryMap} {regions : List MemoryRegion}
    (h : Yields (MemoryMap.next p) map regions map') :
    regions.length ≤ map.buf.bytes.length - map.offset := by
  induction h with
  | done => exact Nat.zero_le _
  | @more map map₁ map₂ region regions hnext hrest ih =>
    obtain ⟨entry, stride, he, _, _, rfl⟩ := next_eq_some hnext
    have hoff := le_length_of_entryAt he
    have hadv : map.offset < saturatingAdd 32 map.offset stride := by
      have hlen := map.buf.length_lt
      by_contra hstuck
      have hzero : saturatingAdd 32 map.offset stride = map.offset := by
        unfold saturatingAdd at hstuck ⊢
        omega
      rw [hzero] at hnext hrest
      exact List.cons_ne_self region regions ((Yields.more hnext hrest).unique hrest)
    rw [List.length_cons]
    simp only [] at ih
    omega

/-! ## Listed regions -/

/-- `Lists bytes region`: the chain has an entry that describes `region`. -/
def Lists (bytes : List U8) (region : MemoryRegion) : Prop :=
  ∃ offset entry, Visits bytes offset ∧ entryAt bytes offset = some entry ∧
    region = entry.region

/-- Along a fitting chain the walk yields exactly the listed regions. -/
theorem yielded_iff_lists (p : Profile) {buf : Slice} (hfit : StridesFit buf.bytes)
    (region : MemoryRegion) :
    Yielded (MemoryMap.next p) (.start buf) region ↔ Lists buf.bytes region := by
  constructor
  · -- The call that yielded stands on the chain.
    intro hy
    obtain ⟨map, map', hreach, hnext⟩ := hy.exists_reaches
    obtain ⟨rfl, hon⟩ := reaches_onChain hfit hreach
    obtain ⟨entry, _, he, rfl, _, _⟩ := next_eq_some hnext
    exact ⟨_, entry, hon.visits he, he, rfl⟩
  · rintro ⟨offset, entry, hv, he, rfl⟩
    obtain ⟨map, hreach, rfl, rfl⟩ :=
      exists_reaches_of_visits (walkEnds_of_stridesFit p hfit) hv entry he
    exact hreach.yielded (.here (next_of_some he (hfit _ _ hv he)))

/-! ## Decoding an encoded map -/

/-- The fixed part of an entry in the Multiboot 1 little-endian layout. -/
def MmapEntry.header (entry : MmapEntry) : List U8 :=
  leBytes 4 entry.size.toNat ++ (leBytes 8 entry.baseAddr.toNat ++
    (leBytes 8 entry.length.toNat ++ leBytes 4 entry.kind.toNat))

/-- An entry together with its extension bytes, as a loader writes it. -/
structure EncodedEntry where
  entry : MmapEntry
  extension : List U8
  size_ge : 20 ≤ entry.size.toNat
  size_le : entry.size.toNat ≤ 2 ^ 32 - 5
  extension_length : extension.length = entry.size.toNat - 20

/-- The bytes of one encoded entry. -/
def EncodedEntry.bytes (e : EncodedEntry) : List U8 := e.entry.header ++ e.extension

/-- Encoded entries back to back. -/
def encodeMap (entries : List EncodedEntry) : List U8 := entries.flatMap EncodedEntry.bytes

/-- The entry most loaders write: 20 bytes after the `size` field and no extension. -/
def EncodedEntry.plain (base length : U64) (kind : U32) : EncodedEntry where
  entry := { size := 20, baseAddr := base, length := length, kind := kind }
  extension := []
  size_ge := (by decide : 20 ≤ (20 : U32).toNat)
  size_le := (by decide : (20 : U32).toNat ≤ 2 ^ 32 - 5)
  extension_length := rfl

/-- An entry with a field of four bytes behind its `kind`. -/
def EncodedEntry.extended (base length : U64) (kind attributes : U32) : EncodedEntry where
  entry := { size := 24, baseAddr := base, length := length, kind := kind }
  extension := leBytes 4 attributes.toNat
  size_ge := (by decide : 20 ≤ (24 : U32).toNat)
  size_le := (by decide : (24 : U32).toNat ≤ 2 ^ 32 - 5)
  extension_length := length_leBytes 4 attributes.toNat

theorem MmapEntry.length_header (entry : MmapEntry) : entry.header.length = 24 := by
  simp [MmapEntry.header]

theorem EncodedEntry.length_bytes (e : EncodedEntry) :
    e.bytes.length = e.entry.size.toNat + 4 := by
  have := e.size_ge
  rw [EncodedEntry.bytes, List.length_append, MmapEntry.length_header, e.extension_length]
  omega

/-- Reading the header back gives the entry. -/
theorem readUnaligned_header (entry : MmapEntry) :
    MmapEntry.readUnaligned entry.header = entry := by
  have hsize := ofNat_leNat_leBytes (n := 4) entry.size (by norm_num)
  have hbase := ofNat_leNat_leBytes (n := 8) entry.baseAddr (by norm_num)
  have hlength := ofNat_leNat_leBytes (n := 8) entry.length (by norm_num)
  have hkind := ofNat_leNat_leBytes (n := 4) entry.kind (by norm_num)
  simp [MmapEntry.readUnaligned, MmapEntry.header, List.drop_append,
    List.take_of_length_le, List.drop_of_length_le, hsize, hbase, hlength, hkind]

/-- The entry at the end of a consumed part of the buffer. -/
theorem entryAt_append (consumed : List U8) (e : EncodedEntry) (rest : List U8) :
    entryAt (consumed ++ (e.bytes ++ rest)) consumed.length = some e.entry := by
  have hhead : (e.bytes ++ rest).take 24 = e.entry.header := by
    rw [EncodedEntry.bytes, List.append_assoc, List.take_left' e.entry.length_header]
  have hlen : 24 ≤ (e.bytes ++ rest).length := by
    have := e.size_ge
    rw [List.length_append, e.length_bytes]
    omega
  unfold entryAt getFrom getTo mmapEntrySize
  simp only [List.length_append, Nat.le_add_right, if_true, List.drop_left]
  rw [List.length_append] at hlen
  simp [hlen, hhead, readUnaligned_header]

/-- Run lemma for `decode_encode`: a walk that has consumed a prefix of the buffer yields
    exactly the entries encoded after it. -/
theorem yields_encoded (p : Profile) (buf : Slice) (entries : List EncodedEntry)
    (tail : List U8) (htail : tail.length < 24) :
    ∀ consumed, buf.bytes = consumed ++ (encodeMap entries ++ tail) →
      ∃ map', Yields (MemoryMap.next p) ⟨buf, consumed.length⟩
        (entries.map fun e => e.entry.region) map' ∧ map'.next p = .ok (none, map') := by
  induction entries with
  | nil =>
    intro consumed hbuf
    have hnone : entryAt buf.bytes consumed.length = none := by
      rw [entryAt_eq_none, hbuf]
      simp [encodeMap]
      omega
    have hnext : MemoryMap.next p ⟨buf, consumed.length⟩ = _ := next_of_none hnone
    exact ⟨_, .done hnext, hnext⟩
  | cons e entries ih =>
    intro consumed hbuf
    have hsplit : buf.bytes = consumed ++ (e.bytes ++ (encodeMap entries ++ tail)) := by
      simpa [encodeMap, List.append_assoc] using hbuf
    have he : entryAt buf.bytes consumed.length = some e.entry := by
      rw [hsplit]
      exact entryAt_append consumed e _
    have hsize : e.entry.size.toNat + 4 < 2 ^ 32 := by
      have := e.size_le
      omega
    have hnext : MemoryMap.next p ⟨buf, consumed.length⟩ = _ := next_of_some he hsize
    -- The end of this entry is inside the buffer, so the cursor does not saturate.
    have hcursor : saturatingAdd 32 consumed.length (e.entry.size.toNat + 4) =
        (consumed ++ e.bytes).length := by
      have hlen := buf.length_lt
      rw [hsplit] at hlen
      simp only [List.length_append, e.length_bytes] at hlen ⊢
      unfold saturatingAdd
      omega
    rw [hcursor] at hnext
    obtain ⟨map', hyields, hnone⟩ := ih (consumed ++ e.bytes) (by simpa using hsplit)
    exact ⟨map', .more hnext hyields, hnone⟩

/-- At the end of the entries done so far stands the next encoded entry, if any. -/
theorem entryAt_encodeMap {done rest : List EncodedEntry} {tail : List U8}
    (htail : tail.length < 24) {entry : MmapEntry}
    (he : entryAt (encodeMap (done ++ rest) ++ tail) (encodeMap done).length = some entry) :
    ∃ e rest', rest = e :: rest' ∧ e.entry = entry := by
  cases rest with
  | nil =>
    -- Only the tail is left, and it is too short for an entry.
    rw [entryAt_eq_none.mpr (by simp; omega)] at he
    cases he
  | cons e rest =>
    have hsplit : encodeMap (done ++ e :: rest) ++ tail =
        encodeMap done ++ (e.bytes ++ (encodeMap rest ++ tail)) := by
      simp [encodeMap]
    rw [hsplit, entryAt_append] at he
    cases he
    exact ⟨e, rest, rfl, rfl⟩

/-- The chain of an encoded map runs through the ends of its entries only. -/
theorem visits_encodeMap {entries : List EncodedEntry} {tail : List U8}
    (htail : tail.length < 24) {offset : Nat} (hv : Visits (encodeMap entries ++ tail) offset) :
    ∃ done rest, entries = done ++ rest ∧ offset = (encodeMap done).length := by
  induction hv with
  | start => exact ⟨[], entries, rfl, rfl⟩
  | @stride offset entry _ he ih =>
    obtain ⟨done, rest, rfl, rfl⟩ := ih
    obtain ⟨e, rest', rfl, rfl⟩ := entryAt_encodeMap htail he
    exact ⟨done ++ [e], rest', by simp, by simp [encodeMap, e.length_bytes]⟩

/-- What an encoded map lists are the regions of its entries. -/
theorem exists_entry_of_lists (entries : List EncodedEntry) (tail : List U8)
    (htail : tail.length < 24) {region : MemoryRegion}
    (h : Lists (encodeMap entries ++ tail) region) : ∃ e ∈ entries, region = e.entry.region := by
  obtain ⟨offset, entry, hv, he, rfl⟩ := h
  obtain ⟨done, rest, rfl, rfl⟩ := visits_encodeMap htail hv
  obtain ⟨e, rest', rfl, rfl⟩ := entryAt_encodeMap htail he
  exact ⟨e, by simp, rfl⟩

/-- Encoded maps are well formed. -/
theorem wellFormed_encodeMap (entries : List EncodedEntry) (tail : List U8)
    (htail : tail.length < 24) : WellFormed (encodeMap entries ++ tail) := by
  intro offset entry hv he
  obtain ⟨done, rest, rfl, rfl⟩ := visits_encodeMap htail hv
  obtain ⟨e, rest', rfl, rfl⟩ := entryAt_encodeMap htail he
  exact ⟨e.size_ge, e.size_le⟩

/-- **Decode undoes encode**: on any list of encoded entries, followed by fewer than 24
    bytes, the iterator started at offset 0 yields exactly one region per entry, in order,
    and then `None`, now and on every later call. -/
theorem decode_encode (p : Profile) (entries : List EncodedEntry) (tail : List U8)
    (htail : tail.length < 24) (buf : Slice) (hbuf : buf.bytes = encodeMap entries ++ tail) :
    ∃ map', Yields (MemoryMap.next p) (.start buf)
        (entries.map fun e => ⟨e.entry.baseAddr, e.entry.length, .fromRaw e.entry.kind⟩) map' ∧
      map'.next p = .ok (none, map') :=
  yields_encoded p buf entries tail htail [] (by simpa using hbuf)

/-- An available entry with an extension and a reserved one without, followed by a truncated one of
    two bytes. -/
theorem decode_encode_two_entries :
    ∃ map', Yields (MemoryMap.next .dev)
        (.start ⟨encodeMap [.extended 0x1000 0x4000 1 1, .plain 0xFEC00000 0x1000 2] ++ [20, 0],
          by decide⟩)
        [⟨0x1000, 0x4000, .available⟩, ⟨0xFEC00000, 0x1000, .reserved 2⟩] map' ∧
      map'.next .dev = .ok (none, map') :=
  decode_encode .dev [.extended 0x1000 0x4000 1 1, .plain 0xFEC00000 0x1000 2] [20, 0] (by decide)
    _ rfl

end Zkrnl32.Multiboot
