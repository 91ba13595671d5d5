import Zkrnl32.Memory.Frame.Init

/-!
# Reported and Published Memory

`print_memory_map` and `FrameBitmap::init` walk the same map, each on its own.  The one adds up the
bytes of the available regions, the other frees their whole frames.

- `printMemoryMap_eq`: the report of a map, line by line, as long as the total fits.
- `usableTotal_lt`: it does, since the walk yields at most one region per byte of the buffer.
- `ncard_publishedBy_le`: the frames that regions publish, overlapping or not, hold no more bytes
  than the regions have together.
-/

namespace Zkrnl32.Memory

open Zkrnl32.Machine Zkrnl32.Multiboot Zkrnl32.Utils

/-! ## The report -/

/-- What a region adds to the total: its bytes below 4 GiB, if it is available. -/
def usableBytes (region : MemoryRegion) : Nat :=
  if region.isAvailable then
    if 2 ^ 32 ≤ region.base.toNat then 0
    else min (region.base.toNat + region.length.toNat) (2 ^ 32) - region.base.toNat
  else 0

def usableTotal (regions : List MemoryRegion) : Nat := (regions.map usableBytes).sum

/-- The line of a region. -/
def regionLine (region : MemoryRegion) : ReportLine :=
  .region region.base.toNat (saturatingAdd 64 region.base.toNat region.length.toNat)
    (region.length.toNat / 1024) region.kind

theorem usableTotal_cons (region : MemoryRegion) (regions : List MemoryRegion) :
    usableTotal (region :: regions) = usableBytes region + usableTotal regions :=
  List.sum_cons

theorem printRegion_eq (p : Profile) (region : MemoryRegion) {report : Report}
    (h : report.usableBytes + usableBytes region < 2 ^ 64) :
    printRegion p region report = .ok ()
      ⟨report.lines ++ [regionLine region], report.usableBytes + usableBytes region⟩ := by
  unfold printRegion
  rw [run_modify_bind]
  unfold usableBytes at h ⊢
  cases havail : region.isAvailable with
  | false => rfl
  | true =>
    simp only [havail, if_true] at h ⊢
    rw [run_lift_bind (addressableBytes_eq p region), run_get_bind,
      run_lift_bind (add_eq_ok h)]
    rfl

/-- The loop of the report: when the total fits, no partial total overflows. -/
theorem forM_printRegion (p : Profile) (regions : List MemoryRegion) {report : Report}
    (h : report.usableBytes + usableTotal regions < 2 ^ 64) :
    forM regions (printRegion p) report = .ok ()
      ⟨report.lines ++ regions.map regionLine, report.usableBytes + usableTotal regions⟩ := by
  induction regions generalizing report with
  | nil => simp [usableTotal]
  | cons region regions ih =>
    rw [usableTotal_cons, ← Nat.add_assoc] at h
    rw [List.forM_cons, run_bind_of_ok (printRegion_eq p region (by omega)), ih h,
      usableTotal_cons, List.map_cons, List.append_assoc, Nat.add_assoc]
    rfl

theorem printMemoryMap_eq {p : Profile} {map map' : MemoryMap} {regions : List MemoryRegion}
    (hyields : Yields (MemoryMap.next p) map regions map') {fuel : Nat}
    (hfuel : regions.length < fuel) (h : usableTotal regions < 2 ^ 64) (report : Report) :
    printMemoryMap p fuel (some map) report = .ok ()
      ⟨report.lines ++ (.header :: regions.map regionLine ++
        [.usable (usableTotal regions / 1024)]), usableTotal regions⟩ := by
  have hfits : (Report.mk (report.lines ++ [.header]) 0).usableBytes + usableTotal regions <
      2 ^ 64 := by
    simpa using h
  unfold printMemoryMap
  simp only []
  rw [run_modify_bind, forEach_eq_forM hyields hfuel,
    run_bind_of_ok (forM_printRegion p regions hfits), run_modify]
  simp

/-! ## The bounds -/

theorem usableBytes_le (region : MemoryRegion) : usableBytes region ≤ 2 ^ 32 := by
  unfold usableBytes
  split
  · split <;> omega
  · exact Nat.zero_le _

theorem usableTotal_le (regions : List MemoryRegion) :
    usableTotal regions ≤ regions.length * 2 ^ 32 := by
  rw [usableTotal, ← List.length_map (f := usableBytes)]
  refine List.sum_le_card_nsmul _ _ fun n hn => ?_
  obtain ⟨region, _, rfl⟩ := List.mem_map.mp hn
  exact usableBytes_le region

/-- One region per byte of the buffer, and at most 4 GiB each. -/
theorem usableTotal_lt {p : Profile} {buf : Slice} {map' : MemoryMap}
    {regions : List MemoryRegion} (hyields : Yields (MemoryMap.next p) (.start buf) regions map')
    (hlen : buf.bytes.length ≤ 2 ^ 31 - 1) : usableTotal regions < 2 ^ 63 := by
  have hcount : regions.length ≤ buf.bytes.length := length_le_of_yields hyields
  have htotal := usableTotal_le regions
  omega

/-- The frames of a region hold no more bytes than it has. -/
theorem ncard_publishedFrames_le (region : MemoryRegion) :
    4096 * (publishedFrames region).ncard ≤ usableBytes region := by
  by_cases hpub : region.kind = .available ∧ region.base.toNat + region.length.toNat < 2 ^ 32
  · obtain ⟨hkind, hend⟩ := hpub
    have hceil := le_divCeil_mul (n := region.base.toNat) (d := 4096) (by decide)
    rw [publishedFrames_eq_Ico hkind hend, Set.ncard_Ico_nat, usableBytes,
      if_pos ((isAvailable_iff region).mpr hkind), if_neg (by omega)]
    omega
  · have hnone : publishedFrames region = ∅ :=
      Set.eq_empty_iff_forall_notMem.mpr fun f hf => hpub ⟨hf.1, hf.2.1⟩
    rw [hnone, Set.ncard_empty]
    exact Nat.zero_le _

theorem publishedBy_cons (region : MemoryRegion) (regions : List MemoryRegion) :
    publishedBy (region :: regions) = publishedFrames region ∪ publishedBy regions := by
  ext f
  simp [publishedBy]

theorem publishedBy_finite (regions : List MemoryRegion) : (publishedBy regions).Finite := by
  refine (Set.finite_Iio frameCount).subset ?_
  rintro f ⟨region, _, hf⟩
  obtain ⟨_, hend, _, hlast⟩ := mem_publishedFrames.mp hf
  rw [Set.mem_Iio, frameCount_eq]
  omega

/-- Overlapping regions count once in the union and each time in the total. -/
theorem ncard_publishedBy_le (regions : List MemoryRegion) :
    4096 * (publishedBy regions).ncard ≤ usableTotal regions := by
  induction regions with
  | nil => simp [publishedBy]
  | cons region regions ih =>
    have hregion := ncard_publishedFrames_le region
    calc 4096 * (publishedBy (region :: regions)).ncard
        ≤ 4096 * ((publishedFrames region).ncard + (publishedBy regions).ncard) := by
          rw [publishedBy_cons]
          exact Nat.mul_le_mul_left 4096 (Set.ncard_union_le _ _)
      _ ≤ usableTotal (region :: regions) := by
          rw [usableTotal_cons]
          omega

/-- **The reported memory bounds the published memory**: on a buffer below 2 GiB whose walk ends,
    the report ends too, and its total is exactly the sum over the available regions, which is far
    from overflowing.  The frames that `init` leaves free on the same map have no more bytes. -/
theorem published_le_reported {p : Profile} {buf : Slice} {map' : MemoryMap}
    {regions : List MemoryRegion} (hlen : buf.bytes.length ≤ 2 ^ 31 - 1)
    (hyields : Yields (MemoryMap.next p) (.start buf) regions map') :
    usableTotal regions < 2 ^ 64 ∧
    (∀ fuel report, regions.length < fuel →
      ∃ report', printMemoryMap p fuel (some (.start buf)) report = .ok () report' ∧
        report'.usableBytes = usableTotal regions) ∧
    ∀ fuel image st, FrameBitmap.init p fuel image (.start buf) .new = .ok () st →
      4096 * st.freeFrames.ncard ≤ usableTotal regions := by
  have htotal : usableTotal regions < 2 ^ 64 :=
    (usableTotal_lt hyields hlen).trans (by decide)
  refine ⟨htotal, fun fuel report hfuel => ?_, fun fuel image st hinit => ?_⟩
  · exact ⟨_, printMemoryMap_eq hyields hfuel htotal report, rfl⟩
  · -- Both walks go over the same regions.
    obtain ⟨regions', map'', hyields', _, hfree, _⟩ := init_eq_ok hinit
    obtain rfl := hyields.unique hyields'
    have hsub : st.freeFrames ⊆ publishedBy regions := by
      rw [hfree, freeFrames_new, Set.empty_union]
      exact Set.sdiff_subset.trans Set.sdiff_subset
    calc 4096 * st.freeFrames.ncard
        ≤ 4096 * (publishedBy regions).ncard :=
          Nat.mul_le_mul_left 4096 (Set.ncard_le_ncard hsub (publishedBy_finite regions))
      _ ≤ usableTotal regions := ncard_publishedBy_le regions

/-- Two regions that overlap, the second one not aligned: the report counts the common bytes
    twice. -/
theorem published_le_reported_overlap :
    ∃ buf report st, printMemoryMap .dev 3 (some (.start buf)) ⟨[], 0⟩ = .ok () report ∧
      FrameBitmap.init .dev 3 LinkedLayout.smallest.image (.start buf) .new = .ok () st ∧
      report.usableBytes = 0x8000 ∧ 4096 * st.freeFrames.ncard ≤ 0x8000 := by
  let entries : List EncodedEntry := [.plain 0x1000 0x4000 1, .plain 0x3800 0x4000 1]
  let buf : Slice := ⟨encodeMap entries, by decide⟩
  obtain ⟨map', hyields, _⟩ := yields_encoded .dev buf entries [] (by decide) [] rfl
  obtain ⟨_, hreport, hpublished⟩ := published_le_reported (by decide) hyields
  obtain ⟨report, hprint, htotal⟩ := hreport 3 ⟨[], 0⟩ (by decide)
  have hbelow : ∀ region ∈ entries.map fun e => e.entry.region,
      region.base.toNat + region.length.toNat < 2 ^ 32 := by decide
  have hno : ∀ region ∈ entries.map fun e => e.entry.region, ¬ TrapsOn .dev region :=
    fun region hmem htrap => Nat.not_le.mpr (hbelow region hmem) htrap.2.1.2.2
  have hfuel : (entries.map fun e => e.entry.region).length < 3 := by decide
  obtain ⟨st, hinit⟩ := init_returns hyields hno hfuel LinkedLayout.smallest.image .new
  have hsum : usableTotal (entries.map fun e => e.entry.region) = 0x8000 := by decide
  exact ⟨buf, report, st, hprint, hinit, htotal.trans hsum, hsum ▸ hpublished 3 _ st hinit⟩

end Zkrnl32.Memory
