import LongMode.Proofs.Elf.Placement
import Mathlib.Order.MinMax

/-!
What memory looks like after a program was loaded into an address space where nothing was mapped.
The view of it is that of the segments, placed in the order of their headers over nothing, with the
stack in pages that no segment touches (`Loading.laidOut_of_ends`). From this follows, for every
image that is accepted, whatever order its headers have and however they overlap:

* bytes of the image, permissions, mapped pages and the first break (`World.layout_of_load`);
* the bytes that a part has in memory but not in the image (`World.bss_of_load`). They are zeros
  whenever the headers are in the order of their addresses. Out of that order they need not be: the
  first page of a part also takes the bytes that come before the part in the image, and a part that
  is placed later does not clear its own bytes in a page that is mapped already
  (`World.bss_of_load_not_zero`).
-/

set_option autoImplicit false
set_option relaxedAutoImplicit false

namespace LongMode

/-- Nothing is mapped. -/
def View.blank : View :=
  ⟨fun _ ↦ none, fun _ ↦ 0⟩

theorem Memory.view_eq_blank {m : Memory} (h : ∀ number : Nat, m.space.pages[number]? = none) :
    m.view = .blank := by
  have hnone (number : Nat) : m.view.permissions number = none := by
    rw [permissions_view, h, Option.map_none]
  ext1
  · exact funext hnone
  · exact funext fun n ↦ byte_view_of_unmapped (hnone _)

namespace Elf

/-! ### The view of a loaded program -/

namespace Image

variable {i : Image} {o : LoadOptions} {loaded : LoadedImage} {v : View}

theorem bytes_of_ofBytes? {content : List UInt8} (h : ofBytes? content = some i) :
    i.bytes = content := by
  simp only [ofBytes?, Option.bind_eq_bind, Option.bind_eq_some_iff] at h
  obtain ⟨encoding, _, header, _, programs, _, sections, _, h⟩ := h
  split at h
  · rw [Option.some.injEq] at h
    rw [← h]
  · exact nomatch h

theorem memorySize_pos {h : ProgramHeader} (hh : h ∈ i.loads) : 0 < h.memorySize := by
  rw [loads, List.mem_filter, decide_eq_true_eq] at hh
  exact hh.2.2

/-- The headers in a list of loaded parts are loaded parts. -/
theorem mem_loads_of_eq {before later : List ProgramHeader} {h : ProgramHeader}
    (hloads : i.loads = before ++ h :: later) :
    (∀ g ∈ before, g ∈ i.loads) ∧ h ∈ i.loads ∧ ∀ g ∈ later, g ∈ i.loads := by
  rw [hloads]
  exact ⟨fun g hg ↦ List.mem_append_left _ hg, List.mem_append_right _ List.mem_cons_self,
    fun g hg ↦ List.mem_append_right _ (List.mem_cons_of_mem _ hg)⟩

theorem touches_iff {h : ProgramHeader} (hh : h ∈ i.loads) {bias number : Nat} :
    h.Touches bias number ↔ (h.segment i.bytes bias).pages.contains number = true :=
  ProgramHeader.touches_iff (memorySize_pos hh)

/-- The first of the headers that touch a page. -/
theorem exists_first_touching {bias number : Nat} {h : ProgramHeader} (hh : h ∈ i.loads)
    (htouches : h.Touches bias number) :
    ∃ before first later, i.loads = before ++ first :: later ∧ first.Touches bias number ∧
      ∀ g ∈ before, ¬ g.Touches bias number := by
  classical
  cases hfind : i.loads.find? (fun g ↦ g.Touches bias number) with
  | none => exact absurd (decide_eq_true htouches) (List.find?_eq_none.mp hfind h hh)
  | some first =>
    obtain ⟨hfirst, before, later, hloads, hbefore⟩ := List.find?_eq_some_iff_append.mp hfind
    simp only [Bool.not_eq_true', decide_eq_false_iff_not] at hbefore
    exact ⟨before, first, later, hloads, of_decide_eq_true hfirst, hbefore⟩

/-- The segments of an image in the order of their headers. -/
def segments (i : Image) (bias : Nat) : List Segment :=
  i.loads.map (ProgramHeader.segment i.bytes bias)

theorem segments_of_eq {before later : List ProgramHeader} {h : ProgramHeader}
    (hloads : i.loads = before ++ h :: later) (bias : Nat) :
    i.segments bias = before.map (ProgramHeader.segment i.bytes bias) ++
      h.segment i.bytes bias :: later.map (ProgramHeader.segment i.bytes bias) := by
  rw [segments, hloads, List.map_append, List.map_cons]

/-- A header leads just in case the pages of its segment are free when it is placed. -/
theorem leads_iff {before later : List ProgramHeader} {h : ProgramHeader}
    (hloads : i.loads = before ++ h :: later) (bias n : Nat) :
    h.Leads before bias n ↔
      (View.blank.layAll (before.map (ProgramHeader.segment i.bytes bias))).IsFree
        (h.segment i.bytes bias).pages ∧ n < (h.segment i.bytes bias).address := by
  obtain ⟨hmem, hh, _⟩ := mem_loads_of_eq hloads
  have hblank : View.blank.IsFree (h.segment i.bytes bias).pages := fun _ _ ↦ rfl
  simp only [View.isFree_layAll_iff, ProgramHeader.Leads, List.forall_mem_map, hblank, true_and]
  rw [and_comm]
  refine and_congr_left fun _ ↦ forall₂_congr fun g hg ↦ forall_congr' fun number ↦ ?_
  rw [touches_iff hh, touches_iff (hmem g hg)]

/-- An image was loaded where nothing was mapped, and memory looks like `v`. -/
structure LaidOut (i : Image) (o : LoadOptions) (loaded : LoadedImage) (v : View) : Prop where
  bias : i.bias? = .ok loaded.bias
  fits (h : ProgramHeader) : h ∈ i.loads → h.Fits i.bytes loaded.bias
  brk : loaded.brk =
    .ofPage ((i.loads.map fun h ↦ (h.segment i.bytes loaded.bias).pages.stop).foldl max 0)
  isFree : (View.blank.layAll (i.segments loaded.bias)).IsFree o.stackPages
  permissions : v.permissions =
    ((View.blank.layAll (i.segments loaded.bias)).permit o.stackPages .readWrite).permissions
  byte (n : Nat) : ¬ o.stackPages.contains (n / pageSize) = true →
    v.byte n = (View.blank.layAll (i.segments loaded.bias)).byte n

theorem foldl_max_map {f : Nat → Nat} (hf : Monotone f) (numbers : List Nat) (a : Nat) :
    (numbers.map f).foldl max (f a) = f (numbers.foldl max a) := by
  induction numbers generalizing a with
  | nil => rfl
  | cons n numbers ih => rw [List.map_cons, List.foldl_cons, List.foldl_cons, ← hf.map_max, ih]

theorem foldl_max_lt {numbers : List Nat} {a bound : Nat} (ha : a < bound)
    (h : ∀ n ∈ numbers, n < bound) : numbers.foldl max a < bound := by
  induction numbers generalizing a with
  | nil => exact ha
  | cons n numbers ih =>
    rw [List.forall_mem_cons] at h
    exact ih (Nat.max_lt.mpr ⟨ha, h.1⟩) h.2

namespace LaidOut

variable {before later : List ProgramHeader} {h : ProgramHeader} {n number : Nat}

theorem regular (hv : i.LaidOut o loaded v) :
    ∀ s ∈ i.segments loaded.bias, s.Regular := by
  rw [segments, List.forall_mem_map]
  exact fun h hh ↦ (hv.fits h hh).regular

theorem not_holdsData (hv : i.LaidOut o loaded v) {headers : List ProgramHeader}
    (hmem : ∀ h ∈ headers, h ∈ i.loads) (hn : ∀ h ∈ headers, ¬ h.InFile loaded.bias n) :
    ∀ s ∈ headers.map (ProgramHeader.segment i.bytes loaded.bias), ¬ s.HoldsData n := by
  rw [List.forall_mem_map]
  exact fun h hh hdata ↦ hn h hh ((hv.fits h (hmem h hh)).holdsData_iff.mp hdata)

/-- The stack takes no page that a header touches. -/
theorem not_stack (hv : i.LaidOut o loaded v) (hh : h ∈ i.loads)
    (htouches : h.Touches loaded.bias number) : ¬ o.stackPages.contains number = true :=
  fun hstack ↦ ((View.isFree_layAll_iff _ _ _).mp hv.isFree).2 _ (List.mem_map_of_mem hh) number
    hstack ((touches_iff hh).mp htouches)

/-- The mapped pages are those that a header touches and those of the stack. -/
theorem mapped_iff (hv : i.LaidOut o loaded v) (number : Nat) :
    v.permissions number ≠ none ↔
      (∃ h ∈ i.loads, h.Touches loaded.bias number) ∨ o.stackPages.contains number = true := by
  have htouched : (View.blank.layAll (i.segments loaded.bias)).permissions number ≠ none ↔
      ∃ h ∈ i.loads, h.Touches loaded.bias number := by
    simp only [View.mapped_layAll_iff, View.blank, ne_eq, not_true_eq_false, false_or, segments,
      List.mem_map, exists_exists_and_eq_and]
    exact exists_congr fun h ↦ and_congr_right fun hh ↦ (touches_iff hh).symm
  rw [hv.permissions, View.permissions_permit, ← htouched]
  by_cases hstack : o.stackPages.contains number = true
  · simp only [hstack, if_true, ne_eq, reduceCtorEq, not_false_eq_true, or_true]
  · simp only [hstack, Bool.false_eq_true, if_false, or_false]

/-- A page has the permissions of the last header that touches it. -/
theorem permissions_of_last (hv : i.LaidOut o loaded v) (hloads : i.loads = before ++ h :: later)
    (htouches : h.Touches loaded.bias number)
    (hlater : ∀ g ∈ later, ¬ g.Touches loaded.bias number) :
    v.permissions number = some (.ofSegmentFlags h.flags) := by
  obtain ⟨_, hh, hmem⟩ := mem_loads_of_eq hloads
  have hlater' : ∀ t ∈ later.map (ProgramHeader.segment i.bytes loaded.bias),
      ¬ t.pages.contains number = true := by
    rw [List.forall_mem_map]
    exact fun g hg hcontains ↦ hlater g hg ((touches_iff (hmem g hg)).mpr hcontains)
  rw [hv.permissions, View.permissions_permit, if_neg (hv.not_stack hh htouches),
    segments_of_eq hloads, View.permissions_layAll_of_last ((touches_iff hh).mp htouches) hlater']
  rfl

/-- An address has the byte that the last header with a byte for it says. -/
theorem byte_of_last (hv : i.LaidOut o loaded v) (hloads : i.loads = before ++ h :: later)
    (hn : h.InFile loaded.bias n) (hlater : ∀ g ∈ later, ¬ g.InFile loaded.bias n) :
    i.bytes[h.offset + (n - (h.address + loaded.bias))]? = some (v.byte n) := by
  obtain ⟨_, hh, hmem⟩ := mem_loads_of_eq hloads
  have hfits := hv.fits h hh
  have hdata := hfits.holdsData_iff.mpr hn
  have hregular := hv.regular
  rw [segments_of_eq hloads] at hregular
  rw [hv.byte n (hv.not_stack hh (hn.touches hfits.file_le)), segments_of_eq hloads,
    View.byte_layAll_of_last hregular hdata (hv.not_holdsData hmem hlater), hfits.getD_data hn]

/-- An address that no header has a byte for, in a page that some header touches, has what the first
such header brings with it: a byte of the image before the part, or zero. -/
theorem byte_of_first (hv : i.LaidOut o loaded v) (hloads : i.loads = before ++ h :: later)
    (htouches : h.Touches loaded.bias (n / pageSize))
    (hbefore : ∀ g ∈ before, ¬ g.Touches loaded.bias (n / pageSize))
    (hn : ∀ g ∈ i.loads, ¬ g.InFile loaded.bias n) :
    (h.Leads before loaded.bias n → v.byte n = h.leadByte i.bytes loaded.bias n) ∧
      (¬ h.Leads before loaded.bias n → v.byte n = 0) := by
  obtain ⟨hmemBefore, hh, _⟩ := mem_loads_of_eq hloads
  have hpage := (touches_iff hh).mp htouches
  have hregular := hv.regular
  have hdata := hv.not_holdsData (fun h hh ↦ hh) hn
  rw [← segments, segments_of_eq hloads] at hdata
  rw [segments_of_eq hloads] at hregular
  have hbefore' : ∀ t ∈ before.map (ProgramHeader.segment i.bytes loaded.bias),
      ¬ t.pages.contains (n / pageSize) = true := by
    rw [List.forall_mem_map]
    exact fun g hg hcontains ↦ hbefore g hg ((touches_iff (hmemBefore g hg)).mpr hcontains)
  have hleads := leads_iff hloads loaded.bias n
  rw [hv.byte n (hv.not_stack hh htouches), segments_of_eq hloads,
    View.byte_layAll_of_first hregular hdata hpage hbefore' rfl]
  refine ⟨fun hlead ↦ ?_, fun hlead ↦ if_neg (hlead ∘ hleads.mpr)⟩
  have hsame : n / pageSize = (h.address + loaded.bias) / pageSize := by
    obtain ⟨n', hlow, _, hn'⟩ := htouches
    refine Nat.le_antisymm (Nat.div_le_div_right (Nat.le_of_lt hlead.1)) ?_
    rw [← hn']
    exact Nat.div_le_div_right hlow
  rw [if_pos (hleads.mp hlead), ProgramHeader.getD_lead hsame hlead.1]

/-- Where the headers are in the order of their addresses, no part brings bytes to an address that
another one has in memory but not in the image. -/
theorem byte_of_ordered (hv : i.LaidOut o loaded v)
    (hordered : i.loads.Pairwise fun g h ↦ g.address ≤ h.address) (hh : h ∈ i.loads)
    (hbss : h.InBss loaded.bias n) (hn : ∀ g ∈ i.loads, ¬ g.InFile loaded.bias n) :
    v.byte n = 0 := by
  obtain ⟨before, first, later, hloads, htouches, hbefore⟩ :=
    exists_first_touching hh hbss.touches
  refine (hv.byte_of_first hloads htouches hbefore hn).2 fun hlead ↦ ?_
  have hlow : h.address + loaded.bias ≤ n := Nat.le_trans (Nat.le_add_right _ _) hbss.1
  have hlt := hlead.1
  rw [hloads, List.mem_append, List.mem_cons] at hh
  rcases hh with hh | rfl | hh
  · exact hbefore h hh hbss.touches
  · omega
  · rw [hloads, List.pairwise_append, List.pairwise_cons] at hordered
    have hle := hordered.2.1.1 h hh
    omega

/-- The first break is the end of the last part, rounded up to a page boundary. -/
theorem toNat_brk (hv : i.LaidOut o loaded v) :
    loaded.brk.toNat = roundUpToPage
      ((i.loads.map fun h ↦ h.address + loaded.bias + h.memorySize).foldl max 0) := by
  have hstop (h : ProgramHeader) : (h.segment i.bytes loaded.bias).pages.stop =
      roundUpToPage (h.address + loaded.bias + h.memorySize) / pageSize := by
    simp only [Segment.pages, ProgramHeader.segment, PageRange.stop, roundUpToPage, pageSize]
    omega
  have hmono : Monotone fun n ↦ roundUpToPage n / pageSize := by
    intro a b hab
    simp only [roundUpToPage, pageSize]
    omega
  have hmax : (i.loads.map fun h ↦ (h.segment i.bytes loaded.bias).pages.stop).foldl max 0 =
      roundUpToPage ((i.loads.map fun h ↦ h.address + loaded.bias + h.memorySize).foldl max 0) /
        pageSize := by
    rw [← foldl_max_map hmono, List.map_map]
    simp only [hstop]
    rfl
  have hlt : (i.loads.map fun h ↦ h.address + loaded.bias + h.memorySize).foldl max 0 <
      addressLimit - (pageSize - 1) := by
    refine foldl_max_lt (by decide) ?_
    rw [List.forall_mem_map]
    exact fun h hh ↦ Nat.lt_sub_of_add_lt (hv.fits h hh).stop_lt
  have hlimit : roundUpToPage ((i.loads.map fun h ↦
      h.address + loaded.bias + h.memorySize).foldl max 0) < addressLimit :=
    Nat.lt_of_le_of_lt (Nat.div_mul_le_self _ _) (Nat.add_lt_of_lt_sub hlt)
  rw [hv.brk, hmax, Address.toNat_ofPage (by rwa [roundUpToPage_eq]), roundUpToPage_eq]

end LaidOut

end Image

/-! ### Images of two parts -/

/-- A program header of a part that is loaded and may be read and written. -/
def loadHeader (offset address fileSize memorySize : Nat) : List UInt8 :=
  [ProgramHeader.load, 6].flatMap (LittleEndian.ofNat 4) ++
    [offset, address, address, fileSize, memorySize, pageSize].flatMap (LittleEndian.ofNat 8)

/-- An image with two program headers and sixteen bytes behind them. -/
def twoParts (first second : List UInt8) : List UInt8 :=
  [0x7f, 0x45, 0x4c, 0x46, 2, 1, 1, 0, 0, 0, 0, 0, 0, 0, 0, 0] ++
    [2, requiredMachine, 1, 0].flatMap (LittleEndian.ofNat 2) ++
    [0x401000, 64, 0].flatMap (LittleEndian.ofNat 8) ++
    [0, 0, 64, 56, 2, 64, 0, 0].flatMap (LittleEndian.ofNat 2) ++ first ++ second ++
    [0x01, 0x02, 0x03, 0x04, 0x05, 0x06, 0x07, 0x08,
      0x11, 0x12, 0x13, 0x14, 0x15, 0x16, 0x17, 0x18]

/-- A part of 32 bytes, of which the image has the first 8. -/
def lowerPart : ProgramHeader := ⟨ProgramHeader.load, 6, 0xb0, 0x601000, 8, 0x20⟩

/-- A part of 8 bytes that follows the lower part in its page. -/
def upperPart : ProgramHeader := ⟨ProgramHeader.load, 6, 0xb8, 0x601020, 8, 8⟩

/-- The two parts in the order of their addresses. -/
def ascendingImage : List UInt8 :=
  twoParts (loadHeader 0xb0 0x601000 8 0x20) (loadHeader 0xb8 0x601020 8 8)

/-- The two parts with the upper one first. -/
def descendingImage : List UInt8 :=
  twoParts (loadHeader 0xb8 0x601020 8 8) (loadHeader 0xb0 0x601000 8 0x20)

theorem ofBytes?_ascendingImage :
    (Image.ofBytes? ascendingImage).map (fun i ↦ (i.loads, i.bias?)) =
      some ([lowerPart, upperPart], .ok 0) := by
  decide +kernel

theorem ofBytes?_descendingImage :
    (Image.ofBytes? descendingImage).map (fun i ↦ (i.loads, i.bias?)) =
      some ([upperPart, lowerPart], .ok 0) := by
  decide +kernel

/-- Options with a stack of one page. -/
def smallStack : LoadOptions where
  arguments := []
  stackSize := 0x1000

/-! ### Loading -/

/-- A program that is loaded where nothing is mapped is laid out as its headers say. -/
theorem Loading.laidOut_of_ends {m m' : Memory} (hm : m.Exclusive) (hblank : m.view = .blank)
    {i : Image} {o : LoadOptions} {loaded : LoadedImage} (hends : Ends (image i o) m loaded m') :
    i.LaidOut o loaded m'.view := by
  obtain ⟨bias, stops, m₁, pointer, hplaced, hstack, rfl⟩ := ends_image_iff.mp hends
  obtain ⟨hfits, rfl, hm₁, hview⟩ := view_mapM_placeHeader hm hplaced.ends
  have hrange := inRange_of_ends hstack
  obtain ⟨hfree, hloaded⟩ := stackLoaded_of_ends hm₁.toWellFormed hstack
  have hpermissions := hloaded.permissions
  have hbyte := hloaded.byte
  rw [hview, hblank] at hfree hpermissions
  simp only [hview, hblank] at hbyte
  exact ⟨hplaced.bias_eq, hfits, rfl, hfree, hpermissions,
    fun n hn ↦ hbyte n (hrange.lt_stackFloor_or_le hn)⟩

end Elf

theorem Memory.exists_load_eq_ok {m : Memory} {content : List UInt8} {o : Elf.LoadOptions}
    (h : (m.load content o).1.toOption.isSome) :
    ∃ loaded m', m.load content o = (.ok loaded, m') := by
  cases hload : m.load content o with
  | mk outcome m' =>
    rw [hload] at h
    cases outcome with
    | error e => exact nomatch h
    | ok loaded => exact ⟨loaded, m', rfl⟩

namespace World

open Elf

variable (windows : Nat → MapWindow) (history : List Action) (k : Nat)

/-- An image that is accepted by an empty address space of any world is laid out as its headers
say. -/
theorem laidOut_of_load
    (hempty : ∀ number : Nat,
      (((start windows).after history).spaces k).pages[number]? = none)
    {content : List UInt8} {o : LoadOptions} {loaded : LoadedImage} {m' : Memory}
    (hload : (((start windows).after history).memory k).load content o = (.ok loaded, m')) :
    ∃ i, Image.ofBytes? content = some i ∧ i.LaidOut o loaded m'.view := by
  have hm := ((wellFormed_after windows history).memory k).exclusive hempty
  have hends : Ends (Loading.bytes content o)
    (((start windows).after history).memory k) loaded m' := hload
  obtain ⟨i, hi, himage⟩ := Loading.exists_image_of_ends hends
  exact ⟨i, hi, Loading.laidOut_of_ends hm (Memory.view_eq_blank hempty) himage⟩

/-- What an image that is accepted by an empty address space looks like in memory, whatever the
order of its headers and however its parts overlap. A byte that a header takes from the image, and
no later header, is there; the mapped pages are those that some header touches and those of the
stack, and a page has the permissions of the last header that touches it; the first break is the
highest end of a part, rounded up to a page boundary. -/
theorem layout_of_load
    (hempty : ∀ number : Nat,
      (((start windows).after history).spaces k).pages[number]? = none)
    {content : List UInt8} {o : LoadOptions} {loaded : LoadedImage} {m' : Memory}
    (hload : (((start windows).after history).memory k).load content o = (.ok loaded, m')) :
    ∃ i, Image.ofBytes? content = some i ∧ i.bias? = .ok loaded.bias ∧
      (∀ before h later, i.loads = before ++ h :: later → ∀ j < h.fileSize,
        (∀ g ∈ later, ¬ g.InFile loaded.bias (h.address + loaded.bias + j)) →
          content[h.offset + j]? =
            some (m'.byte (BitVec.ofNat 64 (h.address + loaded.bias + j)))) ∧
      (∀ number : Nat, m'.space.pages[number]? ≠ none ↔
        (∃ h ∈ i.loads, h.Touches loaded.bias number) ∨ o.stackPages.contains number = true) ∧
      (∀ before h later, i.loads = before ++ h :: later → ∀ number : Nat,
        h.Touches loaded.bias number → (∀ g ∈ later, ¬ g.Touches loaded.bias number) →
          m'.space.pages[number]?.map Page.permissions = some (.ofSegmentFlags h.flags)) ∧
      loaded.brk.toNat = roundUpToPage
        ((i.loads.map fun h ↦ h.address + loaded.bias + h.memorySize).foldl max 0) := by
  obtain ⟨i, hi, hv⟩ := laidOut_of_load windows history k hempty hload
  refine ⟨i, hi, hv.bias, fun before h later hloads j hj hlater ↦ ?_, fun number ↦ ?_,
    fun before h later hloads number ↦ hv.permissions_of_last hloads, hv.toNat_brk⟩
  · have hfits := hv.fits h (Image.mem_loads_of_eq hloads).2.1
    have hin : h.InFile loaded.bias (h.address + loaded.bias + j) :=
      ⟨Nat.le_add_right _ _, Nat.add_lt_add_left hj _⟩
    have hbyte := hv.byte_of_last hloads hin hlater
    have hlimit : h.address + loaded.bias + j < addressLimit := by
      have hstop := hfits.stop_lt
      have hsize := hfits.file_le
      omega
    rwa [Nat.add_sub_cancel_left, Image.bytes_of_ofBytes? hi,
      ← m'.byte_ofNat_eq_view hlimit] at hbyte
  · rw [← hv.mapped_iff, Memory.permissions_view, Ne, Ne, Option.map_eq_none_iff]

theorem layout_of_load_descendingImage :
    ∃ loaded m', (((start fun _ ↦ {}).after []).memory 0).load descendingImage smallStack =
        (.ok loaded, m') ∧
      (∀ j < 8, descendingImage[0xb0 + j]? =
        some (m'.byte (BitVec.ofNat 64 (0x601000 + j)))) ∧
      m'.space.pages[0x601]?.map Page.permissions = some .readWrite ∧
      loaded.brk.toNat = 0x602000 := by
  have haccepted : ∃ loaded m', (((start fun _ ↦ {}).after []).memory 0).load descendingImage
      smallStack = (.ok loaded, m') := Memory.exists_load_eq_ok (by decide +kernel)
  obtain ⟨loaded, m', hload⟩ := haccepted
  obtain ⟨i, hi, hbias, hfile, _, hpermissions, hbrk⟩ :=
    layout_of_load (fun _ ↦ {}) [] 0 (fun _ ↦ by simp [after, start]) hload
  have hheaders := ofBytes?_descendingImage
  rw [hi, Option.map_some, Option.some.injEq, Prod.mk.injEq, hbias, Except.ok.injEq] at hheaders
  obtain ⟨hloads, hzero⟩ := hheaders
  have htouches : lowerPart.Touches loaded.bias 0x601 :=
    ⟨0x601000, by simp [hzero, lowerPart, pageSize]⟩
  refine ⟨loaded, m', hload, fun j hj ↦ ?_, ?_, ?_⟩
  · simpa [hzero, lowerPart] using hfile [upperPart] lowerPart [] hloads j hj (by simp)
  · exact hpermissions [upperPart] lowerPart [] hloads _ htouches (by simp)
  · rw [hbrk, hloads, hzero]
    decide

/-- The bytes that a part has in memory but not in the image, at addresses that no header has a byte
for. Such a byte comes from the first header that touches its page: if this one starts after it and
shares no page with the headers before, it is the byte that comes as far before the part in the
image, and otherwise it is zero. Where the headers are in the order of their addresses it is always
zero. -/
theorem bss_of_load
    (hempty : ∀ number : Nat,
      (((start windows).after history).spaces k).pages[number]? = none)
    {content : List UInt8} {o : LoadOptions} {loaded : LoadedImage} {m' : Memory}
    (hload : (((start windows).after history).memory k).load content o = (.ok loaded, m')) :
    ∃ i, Image.ofBytes? content = some i ∧ i.bias? = .ok loaded.bias ∧
      ∀ h ∈ i.loads, ∀ n, h.InBss loaded.bias n →
      (∀ g ∈ i.loads, ¬ g.InFile loaded.bias n) →
        (∃ before first later, i.loads = before ++ first :: later ∧
          first.Touches loaded.bias (n / pageSize) ∧
          (∀ g ∈ before, ¬ g.Touches loaded.bias (n / pageSize)) ∧
          (first.Leads before loaded.bias n →
            m'.byte (BitVec.ofNat 64 n) = first.leadByte content loaded.bias n) ∧
          (¬ first.Leads before loaded.bias n → m'.byte (BitVec.ofNat 64 n) = 0)) ∧
        ((i.loads.Pairwise fun g h ↦ g.address ≤ h.address) →
          m'.byte (BitVec.ofNat 64 n) = 0) := by
  obtain ⟨i, hi, hv⟩ := laidOut_of_load windows history k hempty hload
  refine ⟨i, hi, hv.bias, fun h hh n hbss hfile ↦ ?_⟩
  have hlimit : n < addressLimit := by
    have hstop := (hv.fits h hh).stop_lt
    have hlow := hbss.2
    omega
  rw [m'.byte_ofNat_eq_view hlimit, ← Image.bytes_of_ofBytes? hi]
  refine ⟨?_, fun hordered ↦ hv.byte_of_ordered hordered hh hbss hfile⟩
  obtain ⟨before, first, later, hloads, htouches, hbefore⟩ :=
    Image.exists_first_touching hh hbss.touches
  exact ⟨before, first, later, hloads, htouches, hbefore,
    hv.byte_of_first hloads htouches hbefore hfile⟩

theorem bss_of_load_ascendingImage :
    ∃ loaded m', (((start fun _ ↦ {}).after []).memory 0).load ascendingImage smallStack =
        (.ok loaded, m') ∧
      ∀ n, 0x601008 ≤ n → n < 0x601020 → m'.byte (BitVec.ofNat 64 n) = 0 := by
  have haccepted : ∃ loaded m', (((start fun _ ↦ {}).after []).memory 0).load ascendingImage
      smallStack = (.ok loaded, m') := Memory.exists_load_eq_ok (by decide +kernel)
  obtain ⟨loaded, m', hload⟩ := haccepted
  obtain ⟨i, hi, hbias, hbss⟩ :=
    bss_of_load (fun _ ↦ {}) [] 0 (fun _ ↦ by simp [after, start]) hload
  have hheaders := ofBytes?_ascendingImage
  rw [hi, Option.map_some, Option.some.injEq, Prod.mk.injEq, hbias, Except.ok.injEq] at hheaders
  obtain ⟨hloads, hzero⟩ := hheaders
  rw [hloads, hzero] at hbss
  refine ⟨loaded, m', hload, fun n hlow hhigh ↦ ?_⟩
  have hgap : ∀ g ∈ [lowerPart, upperPart], ¬ g.InFile 0 n := by
    simp only [ProgramHeader.InFile, lowerPart, upperPart, List.forall_mem_cons, List.not_mem_nil,
      false_implies, implies_true, and_true]
    omega
  exact (hbss lowerPart List.mem_cons_self n ⟨hlow, hhigh⟩ hgap).2 (by decide)

/-- With the upper part first, the first byte of the lower part that is not in the image is not
zero: the page was mapped with the upper part, and the image before that part was laid under it. -/
theorem bss_of_load_not_zero :
    ∃ i loaded m' h n, (((start fun _ ↦ {}).after []).memory 0).load descendingImage smallStack =
        (.ok loaded, m') ∧ Image.ofBytes? descendingImage = some i ∧ h ∈ i.loads ∧
      h.InBss loaded.bias n ∧ (∀ g ∈ i.loads, ¬ g.InFile loaded.bias n) ∧
      m'.byte (BitVec.ofNat 64 n) ≠ 0 := by
  have haccepted : ∃ loaded m', (((start fun _ ↦ {}).after []).memory 0).load descendingImage
      smallStack = (.ok loaded, m') := Memory.exists_load_eq_ok (by decide +kernel)
  have hbyte : ((((start fun _ ↦ {}).after []).memory 0).load descendingImage smallStack).2.byte
      0x601008 ≠ 0 := by decide +kernel
  obtain ⟨loaded, m', hload⟩ := haccepted
  obtain ⟨i, hi, hv⟩ :=
    laidOut_of_load (fun _ ↦ {}) [] 0 (fun _ ↦ by simp [after, start]) hload
  have hheaders := ofBytes?_descendingImage
  rw [hi, Option.map_some, Option.some.injEq, Prod.mk.injEq, hv.bias, Except.ok.injEq] at hheaders
  obtain ⟨hloads, hzero⟩ := hheaders
  rw [hload] at hbyte
  refine ⟨i, loaded, m', lowerPart, 0x601008, hload, hi, ?_, ?_, ?_, hbyte⟩
  · rw [hloads]
    decide
  · rw [hzero]
    exact ⟨by decide, by decide⟩
  · rw [hloads, hzero]
    simp [ProgramHeader.InFile, lowerPart, upperPart]

end World

end LongMode
