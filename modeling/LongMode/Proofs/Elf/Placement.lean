import LongMode.Elf.Load
import LongMode.Proofs.Elf.Layout
import LongMode.Proofs.Elf.Stacks
import Mathlib.Tactic.SplitIfs

/-!
Placing the segments of a program, and its stack, as operations on the view of memory. Whichever way
a segment takes, over free pages or over pages that are mapped in part, it does to the view what
`View.lay` does (`view_place`). Hence all segments together do what `View.layAll` does
(`view_mapM_placeHeader`), and the stack that follows takes free pages and changes no other
(`stackLoaded_of_ends`). A program is loaded by doing the one and then the other
(`ends_image_iff`).
-/

set_option autoImplicit false
set_option relaxedAutoImplicit false

namespace LongMode.Elf

/-! ### The segment of a header -/

namespace ProgramHeader

/-- An address takes a byte that a header says comes from the image. -/
def InFile (bias n : Nat) (h : ProgramHeader) : Prop :=
  h.address + bias ≤ n ∧ n < h.address + bias + h.fileSize

/-- An address is one that a header takes without a byte of the image for it. -/
def InBss (bias n : Nat) (h : ProgramHeader) : Prop :=
  h.address + bias + h.fileSize ≤ n ∧ n < h.address + bias + h.memorySize

/-- A page has an address that a header takes. -/
def Touches (bias number : Nat) (h : ProgramHeader) : Prop :=
  ∃ n, h.address + bias ≤ n ∧ n < h.address + bias + h.memorySize ∧ n / pageSize = number

/-- A header that comes after others brings bytes to an address before its own: none of the pages
that it touches is touched by one of the others. -/
def Leads (others : List ProgramHeader) (bias n : Nat) (h : ProgramHeader) : Prop :=
  n < h.address + bias ∧
    ∀ g ∈ others, ∀ number, h.Touches bias number → ¬ g.Touches bias number

/-- The byte that a header brings to an address before its own: the one that comes as far before its
own bytes in the image, or zero if the image does not go back to the start of the page. -/
def leadByte (image : List UInt8) (bias n : Nat) (h : ProgramHeader) : UInt8 :=
  if (h.address + bias) % pageSize ≤ h.offset then
    image.getD (h.offset - (h.address + bias - n)) 0
  else 0

/-- The segment of a header, leaving aside whether there is room for it. -/
def segment (image : List UInt8) (bias : Nat) (h : ProgramHeader) : Segment where
  address := h.address + bias
  memorySize := h.memorySize
  data := (image.drop h.offset).take h.fileSize
  lead := Segment.leadBytes image h.offset ((h.address + bias) % pageSize)
  permissions := .ofSegmentFlags h.flags

/-- The bytes of a header are in the image, and its pages end inside memory. -/
structure Fits (image : List UInt8) (bias : Nat) (h : ProgramHeader) : Prop where
  file_le : h.fileSize ≤ h.memorySize
  data_le : h.offset + h.fileSize ≤ image.length
  stop_lt : h.address + bias + h.memorySize + (pageSize - 1) < addressLimit

variable {image : List UInt8} {bias n number : Nat} {h : ProgramHeader}

theorem InFile.touches (hsize : h.fileSize ≤ h.memorySize) (hn : h.InFile bias n) :
    h.Touches bias (n / pageSize) :=
  ⟨n, hn.1, Nat.lt_of_lt_of_le hn.2 (Nat.add_le_add_left hsize _), rfl⟩

theorem InBss.touches (hn : h.InBss bias n) : h.Touches bias (n / pageSize) :=
  ⟨n, Nat.le_trans (Nat.le_add_right _ _) hn.1, hn.2, rfl⟩

theorem ofHeader_eq_ok {s : Segment} :
    Segment.ofHeader image bias h = .ok s ↔ h.Fits image bias ∧ h.segment image bias = s := by
  simp only [Segment.ofHeader]
  constructor
  · intro hs
    split_ifs at hs with hfile haddress hsize hdata hstop
    rw [Except.ok.injEq] at hs
    exact ⟨⟨by omega, by omega, by omega⟩, hs⟩
  · rintro ⟨⟨hfile, hdata, hstop⟩, rfl⟩
    rw [if_neg (by omega), if_neg (by omega), if_neg (by omega), if_neg (by omega),
      if_neg (by omega)]
    rfl

theorem length_leadBytes {offset count : Nat} (h : offset ≤ image.length) :
    (Segment.leadBytes image offset count).length = count := by
  rw [Segment.leadBytes]
  split
  · rw [List.length_take, List.length_drop]
    omega
  · exact List.length_replicate

theorem Fits.length_data (hfits : h.Fits image bias) :
    (h.segment image bias).data.length = h.fileSize := by
  have hdata := hfits.data_le
  simp only [segment, List.length_take, List.length_drop]
  omega

theorem Fits.regular (hfits : h.Fits image bias) : (h.segment image bias).Regular where
  length_lead := length_leadBytes (by have := hfits.data_le; omega)
  length_data_le := by
    rw [hfits.length_data]
    exact hfits.file_le

theorem Fits.holdsData_iff (hfits : h.Fits image bias) :
    (h.segment image bias).HoldsData n ↔ h.InFile bias n := by
  rw [Segment.HoldsData, hfits.length_data]
  rfl

/-- The pages of a segment that is not empty are those with an address that it takes. -/
theorem touches_iff (hsize : 0 < h.memorySize) :
    h.Touches bias number ↔ (h.segment image bias).pages.contains number = true := by
  rw [Segment.contains_pages_iff]
  simp only [Touches, segment, pageSize]
  constructor
  · rintro ⟨n, hlow, hhigh, rfl⟩
    omega
  · rintro ⟨hlow, hhigh⟩
    exact ⟨max (h.address + bias) (number * 4096), by omega, by omega, by omega⟩

/-- The data of a segment is a part of the image. -/
theorem Fits.getD_data (hfits : h.Fits image bias) (hn : h.InFile bias n) :
    image[h.offset + (n - (h.address + bias))]? =
      some ((h.segment image bias).data.getD (n - (h.segment image bias).address) 0) := by
  have hdata := hfits.data_le
  obtain ⟨hlow, hhigh⟩ := hn
  have hlt : n - (h.address + bias) < h.fileSize := by omega
  simp only [segment, List.getD_eq_getElem?_getD]
  rw [List.getElem?_take_of_lt hlt, List.getElem?_drop, List.getElem?_eq_getElem (by omega),
    Option.getD_some]

/-- The lead of a segment is the part of the image before its data, if there is so much of it. -/
theorem getD_lead (hpage : n / pageSize = (h.address + bias) / pageSize)
    (hn : n < h.address + bias) :
    (h.segment image bias).lead.getD (n % pageSize) 0 = h.leadByte image bias n := by
  have hoffset : n % pageSize < (h.address + bias) % pageSize := by
    simp only [pageSize] at *
    omega
  have hback : (h.address + bias) % pageSize - n % pageSize = h.address + bias - n := by
    simp only [pageSize] at *
    omega
  simp only [segment, Segment.leadBytes, leadByte]
  split_ifs with hlead
  · have hindex : h.offset - (h.address + bias) % pageSize + n % pageSize =
        h.offset - (h.address + bias - n) := by omega
    simp only [List.getD_eq_getElem?_getD]
    rw [List.getElem?_take_of_lt hoffset, List.getElem?_drop, hindex]
  · exact List.getD_replicate 0 hoffset

end ProgramHeader

/-! ### One segment -/

namespace Segment

/-- A page is given permissions whether it was mapped or not, and keeps its bytes. -/
theorem view_overlayPage {m m' : Memory} (hm : m.Exclusive) {p : Permissions} {page : Nat}
    (hpage : page * pageSize < addressLimit) (h : overlayPage p m page = .ok m') :
    m'.Exclusive ∧ m'.view = m.view.permit ⟨page, 1⟩ p := by
  rw [overlayPage, ← Nat.one_mul pageSize] at h
  split at h
  · rename_i hmapped
    obtain ⟨r, hrange, rfl⟩ := Memory.protect_eq_ok h
    obtain rfl := PageRange.eq_of_of?_ofPage hpage hrange
    refine Memory.view_setPermissions hm p fun number hnumber ↦ ?_
    have hsame : number = page := by
      rw [PageRange.contains_iff] at hnumber
      simp only at hnumber
      omega
    rw [Std.ExtTreeMap.contains_eq_isSome_getElem?, ← hsame] at hmapped
    rw [Memory.permissions_view, Ne, Option.map_eq_none_iff]
    exact Option.ne_none_iff_isSome.mpr hmapped
  · exact ⟨Memory.exclusive_mapZeros hm h, (Memory.view_mapZeros hm.toWellFormed hpage h).2⟩

end Segment

namespace Loading

variable {m m' : Memory}

theorem ends_update_iff {ε : Type} {cause : ε → LoadError} {f : Memory → Except ε Memory}
    {u : Unit} : Ends (update cause f) m u m' ↔ f m = .ok m' := by
  rw [update, ends_bind_iff]
  constructor
  · rintro ⟨_, _, hget, h⟩
    obtain ⟨rfl, rfl⟩ := ends_get_iff.mp hget
    cases hf : f m with
    | error e =>
      simp only [hf] at h
      exact absurd h (not_ends_throw _)
    | ok m₁ =>
      simp only [hf] at h
      rw [ends_set_iff.mp h]
  · intro hf
    refine ⟨m, m, ends_get_iff.mpr ⟨rfl, rfl⟩, ?_⟩
    simp only [hf]
    exact ends_set_iff.mpr rfl

/-- Pages overlaid one by one are given permissions together. -/
theorem view_overlay (hm : m.Exclusive) {p : Permissions} {r : PageRange}
    (hstop : r.stop * pageSize < addressLimit) {u : Unit} (h : Ends (overlay p r) m u m') :
    m'.Exclusive ∧ m'.view = m.view.permit r p := by
  obtain ⟨first, count⟩ := r
  simp only [overlay] at h
  induction count generalizing u m' with
  | zero =>
    obtain ⟨_, rfl⟩ := ends_pure_iff.mp h
    exact ⟨hm, (m.view.permit_empty first p).symm⟩
  | succ count ih =>
    have hnext : (first + count) * pageSize < addressLimit :=
      Nat.lt_of_le_of_lt (Nat.mul_le_mul_right _ (Nat.le_succ _)) hstop
    rw [List.range_succ, ends_forM_concat_iff] at h
    obtain ⟨m₁, hinit, hlast⟩ := h
    obtain ⟨hm₁, hview₁⟩ := ih hnext hinit
    obtain ⟨hm₂, hview₂⟩ := Segment.view_overlayPage hm₁ hnext (ends_update_iff.mp hlast)
    exact ⟨hm₂, by rw [hview₂, hview₁, View.permit_permit]⟩

/-- A segment does to the view what `View.lay` does, in whichever way it is placed. -/
theorem view_place (hm : m.Exclusive) {name : String} {s : Segment}
    (haddress : s.address < addressLimit) {u : Unit} (h : Ends (place name s) m u m') :
    m'.Exclusive ∧ m'.view = m.view.lay s := by
  have hfirst : s.pages.first * pageSize < addressLimit :=
    Nat.lt_of_le_of_lt (Nat.div_mul_le_self _ _) haddress
  obtain ⟨_, _, hget, h⟩ := ends_bind_iff.mp h
  obtain ⟨rfl, rfl⟩ := ends_get_iff.mp hget
  cases hmap : m.map (.ofPage s.pages.first) (s.pages.count * pageSize) s.permissions
      (s.backing name) with
  | ok mapped =>
    simp only [hmap] at h
    rw [ends_set_iff] at h
    subst h
    obtain ⟨r, hrange, hfree, hview⟩ := Memory.view_map hm.toWellFormed rfl hmap
    obtain rfl := PageRange.eq_of_of?_ofPage hfirst hrange
    refine ⟨Memory.exclusive_map hm rfl hmap, ?_⟩
    rw [View.lay, if_pos hfree, hview]
    simp only [Segment.backing, Backing.byte, Nat.zero_add]
  | error error =>
    cases error with
    | overlap start stop existing =>
      simp only [hmap] at h
      obtain ⟨r, hrange, hmapped⟩ := Memory.firstMapped?_of_overlap hmap
      obtain rfl := PageRange.eq_of_of?_ofPage hfirst hrange
      have hfree : ¬ m.view.IsFree s.pages := fun hfree ↦ hmapped <|
        (AddressSpace.firstMapped?_eq_none _ _).mpr fun number hnumber ↦
          Option.map_eq_none_iff.mp (hfree number hnumber)
      obtain ⟨_, m₁, hoverlay, hpoke⟩ := ends_bind_iff.mp h
      obtain ⟨hm₁, hview₁⟩ := view_overlay hm (PageRange.stop_lt_of_of? hrange) hoverlay
      obtain ⟨hm₂, hview₂⟩ := Memory.view_poke hm₁ (ends_update_iff.mp hpoke)
      exact ⟨hm₂, by
        rw [hview₂, hview₁, Address.toNat_ofNat haddress, View.lay, if_neg hfree]⟩
    | _ =>
      simp only [hmap] at h
      exact absurd h (not_ends_throw _)

/-! ### All segments -/

theorem view_placeHeader (hm : m.Exclusive) {i : Image} {name : String} {bias stop : Nat}
    {h : ProgramHeader} (hends : Ends (placeHeader i name bias h) m stop m') :
    h.Fits i.bytes bias ∧ stop = (h.segment i.bytes bias).pages.stop ∧ m'.Exclusive ∧
      m'.view = m.view.lay (h.segment i.bytes bias) := by
  rw [placeHeader] at hends
  cases hsegment : Segment.ofHeader i.bytes bias h with
  | error flaw =>
    simp only [hsegment] at hends
    exact absurd hends (not_ends_throw _)
  | ok s =>
    simp only [hsegment] at hends
    obtain ⟨hfits, rfl⟩ := ProgramHeader.ofHeader_eq_ok.mp hsegment
    obtain ⟨_, m₁, hplace, hpure⟩ := ends_bind_iff.mp hends
    obtain ⟨rfl, rfl⟩ := ends_pure_iff.mp hpure
    have haddress : (h.segment i.bytes bias).address < addressLimit := by
      have hstop := hfits.stop_lt
      simp only [ProgramHeader.segment]
      omega
    exact ⟨hfits, rfl, view_place hm haddress hplace⟩

/-- Headers that are placed one after the other do to the view what their segments do. -/
theorem view_mapM_placeHeader (hm : m.Exclusive) {i : Image} {name : String} {bias : Nat}
    {headers : List ProgramHeader} {stops : List Nat}
    (hends : Ends (headers.mapM (placeHeader i name bias)) m stops m') :
    (∀ h ∈ headers, h.Fits i.bytes bias) ∧
      stops = headers.map (fun h ↦ (h.segment i.bytes bias).pages.stop) ∧ m'.Exclusive ∧
      m'.view = m.view.layAll (headers.map (ProgramHeader.segment i.bytes bias)) := by
  induction headers generalizing m stops with
  | nil =>
    obtain ⟨rfl, rfl⟩ := ends_pure_iff.mp hends
    exact ⟨fun h hh ↦ absurd hh List.not_mem_nil, rfl, hm, rfl⟩
  | cons h headers ih =>
    rw [List.mapM_cons] at hends
    obtain ⟨stop, m₁, hfirst, hends⟩ := ends_bind_iff.mp hends
    obtain ⟨rest, m₂, hrest, hpure⟩ := ends_bind_iff.mp hends
    obtain ⟨rfl, rfl⟩ := ends_pure_iff.mp hpure
    obtain ⟨hfits, rfl, hm₁, hview₁⟩ := view_placeHeader hm hfirst
    obtain ⟨hfits', rfl, hm₂, hview₂⟩ := ih hm₁ hrest
    refine ⟨List.forall_mem_cons.mpr ⟨hfits, hfits'⟩, rfl, hm₂, ?_⟩
    rw [hview₂, hview₁, List.map_cons, View.layAll_cons]

end Loading

/-! ### The stack -/

/-- The pages of the stack: those below the end of the stack, rounded down to a page boundary, that
hold its size. -/
def LoadOptions.stackPages (o : LoadOptions) : PageRange :=
  ⟨o.stackTop.page - roundUpToPage o.stackSize / pageSize, roundUpToPage o.stackSize / pageSize⟩

namespace LoadOptions

variable (o : LoadOptions)

/-- The size of the stack is not zero, and there are as many addresses below its end. -/
def InRange : Prop :=
  o.stackSize ≠ 0 ∧ roundUpToPage o.stackSize ≤ o.stackTop.page * pageSize

/-- The first address of the stack. -/
def stackFloor : Nat :=
  o.stackPages.first * pageSize

/-- The address past the stack. -/
def stackEnd : Nat :=
  o.stackTop.page * pageSize

/-- The load error for a flaw in building the stack. -/
def stackError : StackFlaw → LoadError
  | .full => .stackTooSmall (roundUpToPage o.stackSize)
  | .memory fault => .memory fault

/-- Map the pages of the stack. -/
def mapPages (m : Memory) : Except MapError Memory :=
  (m.map (BitVec.ofNat 64 o.stackFloor) (roundUpToPage o.stackSize) .readWrite .anonymous).map (·.2)

theorem stackEnd_lt : o.stackEnd < addressLimit :=
  Nat.lt_of_le_of_lt (Nat.div_mul_le_self _ _) o.stackTop.toNat_lt

theorem dvd_stackFloor : 16 ∣ o.stackFloor :=
  Nat.dvd_mul_left_of_dvd (by decide) _

theorem count_stackPages : o.stackPages.count * pageSize = roundUpToPage o.stackSize :=
  roundUpToPage_eq o.stackSize

theorem stackEnd_sub :
    o.stackTop.page * pageSize - roundUpToPage o.stackSize = o.stackFloor := by
  rw [stackFloor, ← count_stackPages]
  exact (Nat.sub_mul _ _ _).symm

theorem mapPages_eq (m : Memory) : o.mapPages m =
    (m.map (.ofPage o.stackPages.first) (o.stackPages.count * pageSize) .readWrite .anonymous).map
      (·.2) := by
  rw [mapPages, ← count_stackPages]
  rfl

/-- Stacks that are out of range are those that are refused before anything is mapped. -/
theorem inRange_iff :
    o.InRange ↔ ¬ (addressLimit ≤ o.stackSize + (pageSize - 1) ∨ roundUpToPage o.stackSize = 0 ∨
      o.stackTop.page * pageSize < roundUpToPage o.stackSize) := by
  have hend := o.stackEnd_lt
  simp only [InRange, stackEnd, roundUpToPage, pageSize, addressLimit] at *
  omega

variable {o}

namespace InRange

variable (h : o.InRange)

include h

theorem stackFloor_add : o.stackFloor + roundUpToPage o.stackSize = o.stackEnd := by
  rw [← stackEnd_sub]
  exact Nat.sub_add_cancel h.2

theorem stop_stackPages : o.stackPages.stop * pageSize = o.stackEnd := by
  rw [PageRange.stop, Nat.add_mul, count_stackPages]
  exact h.stackFloor_add

theorem count_pos : 0 < o.stackPages.count := by
  have hsize := h.1
  simp only [stackPages, roundUpToPage, pageSize]
  omega

/-- An address in no page of the stack comes before its first address or not before its end. -/
theorem lt_stackFloor_or_le {n : Nat} (hn : ¬ o.stackPages.contains (n / pageSize) = true) :
    n < o.stackFloor ∨ o.stackEnd ≤ n := by
  have hstop := h.stop_stackPages
  rw [PageRange.contains_iff] at hn
  simp only [stackFloor, PageRange.stop, pageSize] at *
  omega

variable {m m' : Memory}

/-- The pages of the stack can be mapped if they are free. -/
theorem exists_mapPages (hfree : m.view.IsFree o.stackPages) : ∃ m', o.mapPages m = .ok m' := by
  rw [mapPages_eq]
  exact Memory.exists_mapZeros .readWrite h.count_pos
    (Nat.lt_of_le_of_lt (Nat.le_of_eq h.stop_stackPages) o.stackEnd_lt) hfree

/-- The pages of the stack, once they are mapped, were free, and have cells of their own. -/
theorem of_mapPages (hm : m.WellFormed) (hmap : o.mapPages m = .ok m') :
    m.view.IsFree o.stackPages ∧ m'.view = m.view.permit o.stackPages .readWrite ∧
      StackBuilder.Regular o.stackEnd ⟨m', o.stackFloor, o.stackEnd⟩ := by
  have hstop : (o.stackPages.first + o.stackPages.count) * pageSize < addressLimit :=
    Nat.lt_of_le_of_lt (Nat.le_of_eq h.stop_stackPages) o.stackEnd_lt
  have hfirst : o.stackPages.first * pageSize < addressLimit :=
    Nat.lt_of_le_of_lt (Nat.mul_le_mul_right _ (Nat.le_add_right _ _)) hstop
  rw [mapPages_eq] at hmap
  obtain ⟨hfree, hview⟩ := Memory.view_mapZeros hm hfirst hmap
  obtain ⟨region, hmapped⟩ := exists_ok_of_map_snd hmap
  have howns := Memory.owns_of_map hm rfl (PageRange.of?_ofPage h.count_pos hstop) hmapped
  refine ⟨hfree, hview, ?_, ?_, Nat.le_refl _⟩
  · rw [← h.stop_stackPages]
    exact howns
  · rw [← h.stackFloor_add]
    exact Nat.le_add_right _ _

end InRange

end LoadOptions

namespace Loading

variable {m m₁ m' : Memory} {o : LoadOptions} {c : StackContents}

/-- Stacks that are out of range are not mapped. -/
theorem inRange_of_ends {pointer : Address} (h : Ends (mapStack o c) m pointer m') :
    o.InRange := by
  rw [o.inRange_iff]
  intro hrefused
  simp only [mapStack] at h
  rw [if_pos hrefused] at h
  obtain ⟨_, _, hthrow, _⟩ := ends_bind_iff.mp h
  exact not_ends_throw _ hthrow

/-- The pages of a stack that is in range are mapped first. -/
theorem exists_mapPages_of_ends {pointer : Address} (h : Ends (mapStack o c) m pointer m') :
    ∃ m₁, o.mapPages m = .ok m₁ := by
  have hrange := o.inRange_iff.mp (inRange_of_ends h)
  simp only [mapStack] at h
  rw [if_neg hrange] at h
  obtain ⟨_, m₁, hmap, _⟩ := ends_bind_iff.mp h
  rw [ends_update_iff, o.stackEnd_sub] at hmap
  exact ⟨m₁, hmap⟩

/-- Once its pages are mapped the stack is built. -/
theorem run_mapStack (hrange : o.InRange) (hmap : o.mapPages m = .ok m₁)
    {result : Except StackFlaw Address} {b : StackBuilder}
    (hbuild : (StackBuild.build c).run.run ⟨m₁, o.stackFloor, o.stackEnd⟩ = (result, b)) :
    (mapStack o c).run.run m = (result.mapError o.stackError, b.memory) := by
  have hmap' : Ends (update .map fun m ↦ (m.map (BitVec.ofNat 64 o.stackFloor)
      (roundUpToPage o.stackSize) .readWrite .anonymous).map (·.2)) m () m₁ :=
    ends_update_iff.mpr hmap
  have hbuild' : (StackBuild.build c).run.run ⟨m₁, o.stackFloor, o.stackTop.page * pageSize⟩ =
    (result, b) := hbuild
  simp only [mapStack]
  rw [if_neg (o.inRange_iff.mp hrange), o.stackEnd_sub, hmap'.run_bind,
    Ends.run_bind (ends_get_iff.mpr ⟨rfl, rfl⟩)]
  simp only [hbuild']
  cases result with
  | ok pointer => rfl
  | error flaw =>
    cases flaw with
    | full => rfl
    | memory fault => rfl

/-- The stack of a program is in memory with its contents in place, and nothing else has changed. -/
structure StackLoaded (o : LoadOptions) (c : StackContents) (m : Memory) (pointer : Address)
    (m' : Memory) : Prop where
  owns : m'.Owns o.stackFloor o.stackEnd
  floor_le : o.stackFloor ≤ pointer.toNat
  inPlace : ∃ s, c.InPlace m'.view o.stackEnd pointer.toNat s
  permissions : m'.view.permissions = (m.view.permit o.stackPages .readWrite).permissions
  byte (n : Nat) : n < o.stackFloor ∨ o.stackEnd ≤ n → m'.view.byte n = m.view.byte n

/-- Once its pages are mapped, the stack is loaded if there is room for its contents. -/
theorem exists_stackLoaded (hm : m.WellFormed) (hrange : o.InRange) (hmap : o.mapPages m = .ok m₁)
    (hroom : c.size ≤ roundUpToPage o.stackSize) :
    ∃ pointer m', Ends (mapStack o c) m pointer m' ∧ StackLoaded o c m pointer m' := by
  obtain ⟨_, hview, hregular⟩ := hrange.of_mapPages hm hmap
  have hend := hrange.stackFloor_add
  obtain ⟨pointer, b, hbuild, hext, rfl, s, hplace⟩ :=
    (StackBuild.takes_build hregular o.dvd_stackFloor c).ends (by simp only; omega)
  have hregular' := hregular.of_extends hext
  have htoNat := hregular'.owns.toNat_ofNat hregular'.le_top
  refine ⟨_, b.memory, run_mapStack hrange hmap hbuild, ?_, ?_, ⟨s, by rwa [htoNat]⟩, ?_, ?_⟩
  · exact hregular.owns.of_space_eq hext.space_eq
  · rw [htoNat]
    exact hext.floor_le
  · rw [← hview]
    exact Memory.permissions_view_congr hext.space_eq
  · intro n hn
    have hpointer := hext.floor_le
    rw [hext.byte n (by simp only at *; omega)]
    exact congrFun (congrArg View.byte hview) n

/-- Once its pages are mapped, loading the stack fails if there is too little room for its
contents. -/
theorem run_mapStack_of_lt (hm : m.WellFormed) (hrange : o.InRange)
    (hmap : o.mapPages m = .ok m₁) (hroom : roundUpToPage o.stackSize < c.size) :
    ∃ m', (mapStack o c).run.run m =
      (.error (.stackTooSmall (roundUpToPage o.stackSize)), m') := by
  obtain ⟨_, _, hregular⟩ := hrange.of_mapPages hm hmap
  have hend := hrange.stackFloor_add
  obtain ⟨b, hbuild⟩ :=
    (StackBuild.takes_build hregular o.dvd_stackFloor c).full (by simp only; omega)
  exact ⟨b.memory, run_mapStack hrange hmap hbuild⟩

/-- A stack that is loaded took pages that were free. -/
theorem stackLoaded_of_ends (hm : m.WellFormed) {pointer : Address}
    (hends : Ends (mapStack o c) m pointer m') :
    m.view.IsFree o.stackPages ∧ StackLoaded o c m pointer m' := by
  have hrange := inRange_of_ends hends
  obtain ⟨m₁, hmap⟩ := exists_mapPages_of_ends hends
  refine ⟨(hrange.of_mapPages hm hmap).1, ?_⟩
  rcases Nat.lt_or_ge (roundUpToPage o.stackSize) c.size with hfull | hroom
  · obtain ⟨m'', hrun⟩ := run_mapStack_of_lt hm hrange hmap hfull
    rw [Ends, hrun] at hends
    cases hends
  · obtain ⟨pointer', m'', hends', hloaded⟩ := exists_stackLoaded hm hrange hmap hroom
    rw [Ends, hends', Prod.mk.injEq, Except.ok.injEq] at hends
    obtain ⟨rfl, rfl⟩ := hends
    exact hloaded

end Loading

/-! ### Programs -/

namespace Image

/-- The parts of an image that may be loaded are in memory, and the program is moved by `bias`. -/
structure Placed (i : Image) (o : LoadOptions) (m : Memory) (bias : Nat) (stops : List Nat)
    (m' : Memory) : Prop where
  static : i.requireStatic = .ok ()
  bias_eq : i.bias? = .ok bias
  loads : i.loads.isEmpty = false
  ends : Ends (i.loads.mapM (Loading.placeHeader i o.programPath bias)) m stops m'

/-- What a load of an image that is placed gives, with its stack pointer. -/
def loaded (i : Image) (bias : Nat) (stops : List Nat) (stackPointer : Address) : LoadedImage where
  entry := BitVec.ofNat 64 (i.header.entry + bias)
  stackPointer := stackPointer
  brk := .ofPage (stops.foldl max 0)
  programHeaders :=
    match i.headerTableAddress? with
    | some address => BitVec.ofNat 64 (address + bias)
    | none => 0
  bias := bias

/-- What the program of an image finds on its stack. -/
def stackContents (i : Image) (o : LoadOptions) (loaded : LoadedImage) : StackContents where
  arguments := o.arguments
  environment := o.environment
  path := o.programPath
  random := o.random
  auxiliary := Loading.auxiliary i o loaded.programHeaders loaded.entry

end Image

namespace Loading

variable {m m₁ m' : Memory} {i : Image} {o : LoadOptions} {bias : Nat} {stops : List Nat}

/-- Once the parts of an image are placed, the stack is loaded. -/
theorem run_image (h : i.Placed o m bias stops m₁) :
    (image i o).run.run m = (do
      let pointer ← mapStack o (i.stackContents o (i.loaded bias stops 0))
      return i.loaded bias stops pointer : Loading LoadedImage).run.run m₁ := by
  have hstatic : Ends (liftM i.requireStatic : Loading Unit) m () m :=
    ends_liftM_iff.mpr ⟨h.static, rfl⟩
  have hbias : Ends (liftM i.bias? : Loading Nat) m bias m := ends_liftM_iff.mpr ⟨h.bias_eq, rfl⟩
  rw [image, hstatic.run_bind, hbias.run_bind, h.loads]
  exact h.ends.run_bind

/-- A program that is loaded was placed first. -/
theorem exists_placed_of_ends {loaded : LoadedImage} (hends : Ends (image i o) m loaded m') :
    ∃ bias stops m₁, i.Placed o m bias stops m₁ := by
  rw [image] at hends
  obtain ⟨_, _, hrequired, hends⟩ := ends_bind_iff.mp hends
  obtain ⟨hstatic, rfl⟩ := ends_liftM_iff.mp hrequired
  obtain ⟨bias, _, hkind, hends⟩ := ends_bind_iff.mp hends
  obtain ⟨hbias, rfl⟩ := ends_liftM_iff.mp hkind
  simp only at hends
  split at hends
  · obtain ⟨_, _, hthrow, _⟩ := ends_bind_iff.mp hends
    exact absurd hthrow (not_ends_throw _)
  rename_i hloads
  obtain ⟨stops, m₁, hstops, _⟩ := ends_bind_iff.mp hends
  exact ⟨bias, stops, m₁, hstatic, hbias, Bool.eq_false_iff.mpr hloads, hstops⟩

/-- A program that is loaded was placed first, and then its stack. -/
theorem ends_image_iff {loaded : LoadedImage} :
    Ends (image i o) m loaded m' ↔ ∃ bias stops m₁ pointer, i.Placed o m bias stops m₁ ∧
      Ends (mapStack o (i.stackContents o (i.loaded bias stops 0))) m₁ pointer m' ∧
      loaded = i.loaded bias stops pointer := by
  constructor
  · intro hends
    obtain ⟨bias, stops, m₁, hplaced⟩ := exists_placed_of_ends hends
    rw [Ends, run_image hplaced] at hends
    obtain ⟨pointer, m₂, hstack, hpure⟩ := ends_bind_iff.mp hends
    obtain ⟨rfl, rfl⟩ := ends_pure_iff.mp hpure
    exact ⟨bias, stops, m₁, pointer, hplaced, hstack, rfl⟩
  · rintro ⟨bias, stops, m₁, pointer, hplaced, hstack, rfl⟩
    rw [Ends, run_image hplaced]
    exact ends_bind_iff.mpr ⟨pointer, m', hstack, ends_pure_iff.mpr ⟨rfl, rfl⟩⟩

/-- A program that is loaded has an image. -/
theorem exists_image_of_ends {content : List UInt8} {loaded : LoadedImage}
    (hends : Ends (bytes content o) m loaded m') :
    ∃ i, Image.ofBytes? content = some i ∧ Ends (image i o) m loaded m' := by
  rw [bytes] at hends
  cases hi : Image.ofBytes? content with
  | none =>
    simp only [hi] at hends
    exact absurd hends (not_ends_throw _)
  | some i =>
    simp only [hi] at hends
    exact ⟨i, rfl, hends⟩

end Loading

end LongMode.Elf
