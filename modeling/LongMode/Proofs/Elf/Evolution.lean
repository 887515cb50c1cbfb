import LongMode.Elf.Load
import LongMode.Proofs.Memory.World

/-!
Loading a program, as something that happens to the memory of a machine. Putting the first contents
on a stack is storing (`StackBuild.keeps_build`). All of loading does to memory only what requests
to an address space do as well: frames evolve, and memory stays well formed, whether the program can
be loaded or not (`Memory.succeeds_load`).
-/

set_option autoImplicit false
set_option relaxedAutoImplicit false

namespace LongMode

instance Memory.isPreorder_stored : IsPreorder Memory Memory.Stored where
  refl := .refl
  trans _ _ _ := .trans

namespace Elf

/-! ### Stacks -/

/-- One builder comes from another by stores. -/
def StackBuilder.Stored (b b' : StackBuilder) : Prop :=
  b.memory.Stored b'.memory

instance StackBuilder.isPreorder_stored : IsPreorder StackBuilder StackBuilder.Stored where
  refl b := .refl b.memory
  trans _ _ _ h h' := Memory.Stored.trans h h'

namespace StackBuild

variable {b : StackBuilder}

@[grind ←] theorem keeps_reserve (size : Nat) : Keeps StackBuilder.Stored (reserve size) b := by
  refine keeps_get_bind_iff.mpr ?_
  split
  · exact keeps_set (.refl b.memory)
  · exact keeps_throw _

@[grind ←] theorem keeps_store (bytes : List UInt8) :
    Keeps StackBuilder.Stored (store bytes) b := by
  refine keeps_get_bind_iff.mpr ?_
  split
  · rename_i hpoke
    exact keeps_set (Memory.stored_poke hpoke)
  · exact keeps_throw _

@[grind ←] theorem keeps_push (bytes : List UInt8) : Keeps StackBuilder.Stored (push bytes) b := by
  unfold push
  grind

@[grind ←] theorem keeps_pushTexts (texts : List String) :
    Keeps StackBuilder.Stored (pushTexts texts) b := by
  induction texts generalizing b with
  | nil => exact keeps_pure _
  | cons text texts ih =>
    unfold pushTexts
    grind

/-- Putting the contents of a stack in place is storing. -/
theorem keeps_build (c : StackContents) : Keeps StackBuilder.Stored (build c) b := by
  refine (keeps_push _).andThen fun path _ ↦ (keeps_pushTexts _).andThen fun environment _ ↦
    (keeps_pushTexts _).andThen fun arguments _ ↦ (keeps_push _).andThen fun platform _ ↦
    (keeps_push _).andThen fun random _ ↦ (keeps_reserve _).andThen fun _ _ ↦
    (keeps_modify ?_).andThen fun _ _ ↦ (keeps_store _).andThen fun _ _ ↦
    keeps_get.andThen fun _ _ ↦ keeps_pure _
  exact .refl _

end StackBuild

/-! ### Segments -/

namespace Loading

variable {m : Memory}

theorem keeps_update {ε : Type} {cause : ε → LoadError} {f : Memory → Except ε Memory}
    (hf : ∀ m', f m = .ok m' → m.Yields m') : Keeps Memory.Yields (update cause f) m := by
  refine keeps_get_bind_iff.mpr ?_
  split
  · rename_i m' h
    exact keeps_set (hf m' h)
  · exact keeps_throw _

theorem yields_mapZeros {a : Address} {length : Nat} {p : Permissions} {m' : Memory}
    (h : (m.map a length p .anonymous).map (·.2) = .ok m') : m.Yields m' := fun hm ↦ by
  obtain ⟨region, hmap⟩ := exists_ok_of_map_snd h
  exact Memory.succeeds_map hm hmap nofun

theorem keeps_overlay (p : Permissions) (r : PageRange) :
    Keeps Memory.Yields (overlay p r) m := by
  refine keeps_forM fun i _ m ↦ keeps_update fun m' h ↦ ?_
  unfold Segment.overlayPage at h
  split at h
  · exact fun hm ↦ Memory.succeeds_protect hm h
  · exact yields_mapZeros h

theorem keeps_place (name : String) (s : Segment) : Keeps Memory.Yields (place name s) m := by
  refine keeps_get_bind_iff.mpr ?_
  split
  · rename_i hmap
    exact keeps_set fun hm ↦ Memory.succeeds_map hm hmap nofun
  · exact (keeps_overlay _ _).andThen fun _ _ ↦
      keeps_update fun _ h ↦ (Memory.stored_poke h).yields
  · exact keeps_throw _

theorem keeps_placeHeader (i : Image) (name : String) (bias : Nat) (h : ProgramHeader) :
    Keeps Memory.Yields (placeHeader i name bias h) m := by
  unfold placeHeader
  split
  · exact (keeps_place _ _).andThen fun _ _ ↦ keeps_pure _
  · exact keeps_throw _

/-! ### Programs -/

theorem keeps_mapStack (o : LoadOptions) (c : StackContents) :
    Keeps Memory.Yields (mapStack o c) m := by
  unfold mapStack
  extract_lets top size mapped
  have hmapped : Keeps Memory.Yields (mapped ()) m := by
    refine (keeps_update fun _ h ↦ yields_mapZeros h).andThen fun _ m ↦ keeps_get_bind_iff.mpr ?_
    have hbuild : Keeps StackBuilder.Stored (StackBuild.build c) ⟨m, top - size, top⟩ :=
      StackBuild.keeps_build c
    refine (keeps_set (Memory.Stored.yields hbuild)).andThen fun _ _ ↦ ?_
    split
    · exact keeps_pure _
    · exact keeps_throw _
    · exact keeps_throw _
  split
  · exact keeps_throw_bind _
  · exact hmapped

theorem keeps_image (i : Image) (o : LoadOptions) : Keeps Memory.Yields (image i o) m := by
  refine (keeps_liftM _).andThen fun _ _ ↦ (keeps_liftM _).andThen fun bias m ↦ ?_
  extract_lets programHeaders entry placed
  have hplaced : Keeps Memory.Yields (placed ()) m :=
    (keeps_mapM fun h _ _ ↦ keeps_placeHeader i _ bias h).andThen fun stops _ ↦
      (keeps_mapStack _ _).andThen fun _ _ ↦ keeps_pure _
  clear_value placed
  grind

theorem keeps_bytes (content : List UInt8) (o : LoadOptions) :
    Keeps Memory.Yields (bytes content o) m := by
  unfold bytes
  split
  · exact keeps_image _ _
  · exact keeps_throw _

end Loading

end Elf

/-- Loading a program leaves memory well formed, whatever comes of it, and frames only evolve. -/
theorem Memory.succeeds_load {m : Memory} (hm : m.WellFormed) (content : List UInt8)
    (o : Elf.LoadOptions) : m.Succeeds (m.load content o).2 :=
  Elf.Loading.keeps_bytes content o hm

end LongMode
