import Theos.Kernel.ModuleLoader

/-!
# Base relocations

`apply_base_relocations` goes through the relocations of an image and adds the load delta to
the number at each target.  `Relocates` says what the image is afterwards, and determines it.
If the targets do not overlap, that is what the loop computes, so the order of the list does
not matter, and two relocations make one.

The loop asks for eight bytes at every target, also for the four of `HIGHLOW` and for the
entries that have no target at all.
-/

namespace Theos
namespace Kernel
namespace Loader

open Base

/-- The number of bytes at the target: of `DIR64`, of `HIGHLOW`, and none of `ABSOLUTE`. -/
def TemplateRelocation.width (r : TemplateRelocation) : Nat :=
  if r.kind = 10 then 8 else if r.kind = 3 then 4 else 0

/-- The byte belongs to the target. -/
def TemplateRelocation.Covers (r : TemplateRelocation) (i : Nat) : Prop :=
  r.rva ≤ i ∧ i < r.rva + r.width

instance (r : TemplateRelocation) (i : Nat) : Decidable (r.Covers i) :=
  inferInstanceAs (Decidable (_ ∧ _))

def TemplateRelocation.Apart (r r' : TemplateRelocation) : Prop :=
  ∀ i, ¬ (r.Covers i ∧ r'.Covers i)

/-- The relocations of a module, with targets in its image that do not overlap. -/
structure Relocatable (layout : Layout) : Prop where
  base_lt : layout.preferredBase < 2 ^ 64
  has : layout.hasRelocations = true
  kinds : ∀ r ∈ layout.relocations, r.kind = 0 ∨ r.kind = 3 ∨ r.kind = 10
  inRange : ∀ r ∈ layout.relocations, r.rva + r.width ≤ layout.sizeOfImage
  apart : layout.relocations.Pairwise TemplateRelocation.Apart

/-! ## The relocated image -/

/-- The delta is added at every target, modulo the size of the number there, and every other
byte is as it was. -/
structure Relocates (relocations : List TemplateRelocation) (delta : Nat) (image out : Bytes) :
    Prop where
  length_eq : out.length = image.length
  target : ∀ r ∈ relocations, ofLE (slice out r.rva r.width) =
    (ofLE (slice image r.rva r.width) + delta) % 256 ^ r.width
  other : ∀ i, (∀ r ∈ relocations, ¬ r.Covers i) → out[i]? = image[i]?

theorem slice_eq_iff {α : Type} {left right : List α} {off len : Nat} :
    slice left off len = slice right off len ↔
      ∀ i, off ≤ i → i < off + len → left[i]? = right[i]? := by
  constructor
  · intro h i hlow hhigh
    have hget := congrArg (·[i - off]?) h
    simp only [getElem?_slice] at hget
    rwa [if_pos (by omega), if_pos (by omega), Nat.add_sub_cancel' hlow] at hget
  · intro h
    apply List.ext_getElem?
    intro i
    rw [getElem?_slice, getElem?_slice]
    by_cases hi : i < len
    · rw [if_pos hi, if_pos hi, h _ (by omega) (by omega)]
    · rw [if_neg hi, if_neg hi]

namespace Relocates

variable {relocations : List TemplateRelocation} {delta : Nat} {image out out' : Bytes}

/-- There is one relocated image. -/
theorem unique
    (h : Relocates relocations delta image out)
    (h' : Relocates relocations delta image out') :
    out = out' := by
  apply List.ext_getElem?
  intro i
  by_cases hi : ∃ r ∈ relocations, r.Covers i
  · obtain ⟨r, hr, hlow, hhigh⟩ := hi
    have hlength : (slice out r.rva r.width).length = (slice out' r.rva r.width).length := by
      simp only [slice, List.length_take, List.length_drop, h.length_eq, h'.length_eq]
    have hslice : slice out r.rva r.width = slice out' r.rva r.width :=
      ofLE_injective hlength ((h.target r hr).trans (h'.target r hr).symm)
    exact slice_eq_iff.mp hslice i hlow hhigh
  · have hnot : ∀ r ∈ relocations, ¬ r.Covers i := fun r hr hcovers => hi ⟨r, hr, hcovers⟩
    rw [h.other i hnot, h'.other i hnot]

theorem perm {relocations' : List TemplateRelocation}
    (h : Relocates relocations delta image out)
    (hperm : relocations'.Perm relocations) :
    Relocates relocations' delta image out :=
  ⟨h.length_eq, fun r hr => h.target r (hperm.mem_iff.mp hr),
    fun i hi => h.other i fun r hr => hi r (hperm.mem_iff.mpr hr)⟩

theorem trans {delta' : Nat}
    (h : Relocates relocations delta image out)
    (h' : Relocates relocations delta' out out') :
    Relocates relocations (delta + delta') image out' := by
  refine ⟨h'.length_eq.trans h.length_eq, fun r hr => ?_, fun i hi => ?_⟩
  · rw [h'.target r hr, h.target r hr, Nat.mod_add_mod, Nat.add_assoc]
  · rw [h'.other i hi, h.other i hi]

/-- Only the lowest eight bytes of the delta matter. -/
theorem congr_delta {delta' : Nat}
    (h : Relocates relocations delta image out)
    (hdelta : delta % 2 ^ 64 = delta' % 2 ^ 64) :
    Relocates relocations delta' image out := by
  refine ⟨h.length_eq, fun r hr => ?_, h.other⟩
  have hdvd : 256 ^ r.width ∣ 2 ^ 64 := by
    unfold TemplateRelocation.width
    split
    · decide
    · split <;> decide
  have hmod : delta % 256 ^ r.width = delta' % 256 ^ r.width := by
    rw [← Nat.mod_mod_of_dvd delta hdvd, hdelta, Nat.mod_mod_of_dvd delta' hdvd]
  rw [h.target r hr, Nat.add_mod, hmod, ← Nat.add_mod]

theorem zero
    (relocations : List TemplateRelocation) (image : Bytes) :
    Relocates relocations 0 image image := by
  refine ⟨rfl, fun r _ => ?_, fun _ _ => rfl⟩
  have hlt := ofLE_lt (slice image r.rva r.width)
  have hle : (slice image r.rva r.width).length ≤ r.width := by
    rw [slice, List.length_take]
    exact Nat.min_le_left ..
  rw [Nat.add_zero, Nat.mod_eq_of_lt]
  exact hlt.trans_le (Nat.pow_le_pow_right (by decide) hle)

/-- One relocation more, at a target of its own. -/
theorem cons {r : TemplateRelocation}
    (h : Relocates relocations delta (addAt image r.width r.rva delta) out)
    (hfits : r.rva + r.width ≤ image.length)
    (hapart : ∀ r' ∈ relocations, r.Apart r') :
    Relocates (r :: relocations) delta image out := by
  have hroom : r.rva + (toLE r.width (ofLE (slice image r.rva r.width) + delta)).length ≤
      image.length := by
    rwa [length_toLE]
  have houtside : ∀ i, ¬ r.Covers i → (addAt image r.width r.rva delta)[i]? = image[i]? := by
    intro i hi
    rw [addAt, getElem?_splice hroom, length_toLE]
    exact if_neg hi
  refine ⟨h.length_eq.trans (length_splice hroom), ?_, fun i hi => ?_⟩
  · intro r' hr'
    rcases List.mem_cons.mp hr' with rfl | hr'
    · -- no later relocation touches this target
      have hkept : slice out r'.rva r'.width =
          slice (addAt image r'.width r'.rva delta) r'.rva r'.width :=
        slice_eq_iff.mpr fun i hlow hhigh => h.other i fun r'' hr'' hcovers =>
          hapart r'' hr'' i ⟨⟨hlow, hhigh⟩, hcovers⟩
      have hwritten : slice (addAt image r'.width r'.rva delta) r'.rva r'.width =
          toLE r'.width (ofLE (slice image r'.rva r'.width) + delta) := by
        have hself := slice_splice_self hroom
        rwa [length_toLE] at hself
      rw [hkept, hwritten, ofLE_toLE]
    · rw [h.target r' hr']
      have hbefore : slice (addAt image r.width r.rva delta) r'.rva r'.width =
          slice image r'.rva r'.width :=
        slice_eq_iff.mpr fun i hlow hhigh => houtside i fun hcovers =>
          hapart r' hr' i ⟨hcovers, ⟨hlow, hhigh⟩⟩
      rw [hbefore]
  · obtain ⟨hhead, htail⟩ := List.forall_mem_cons.mp hi
    rw [h.other i htail, houtside i hhead]

end Relocates

/-! ## The loop -/

theorem addAt_zero_width
    (image : Bytes) (rva delta : Nat) :
    addAt image 0 rva delta = image := by
  simp [addAt, splice, toLE]

/-- One round of the loop. -/
theorem relocate_cons {layout : Layout} {delta : Nat} {r : TemplateRelocation}
    (hkind : r.kind = 0 ∨ r.kind = 3 ∨ r.kind = 10)
    (relocations : List TemplateRelocation) (image : Bytes) :
    relocate layout delta (r :: relocations) image =
      if layout.sizeOfImage < r.rva + 8 then (.error (.nt .invalidImageFormat), image)
      else relocate layout delta relocations (addAt image r.width r.rva delta) := by
  rw [relocate]
  split
  · rfl
  · rcases hkind with hkind | hkind | hkind
    · simp [TemplateRelocation.width, hkind, addAt_zero_width]
    · simp [TemplateRelocation.width, hkind]
    · simp [TemplateRelocation.width, hkind]

theorem relocate_relocates
    {layout : Layout} {delta : Nat} {relocations : List TemplateRelocation} {image : Bytes}
    (hkinds : ∀ r ∈ relocations, r.kind = 0 ∨ r.kind = 3 ∨ r.kind = 10)
    (hrange : ∀ r ∈ relocations, r.rva + r.width ≤ image.length)
    (hapart : relocations.Pairwise TemplateRelocation.Apart)
    (hlong : ∀ r ∈ relocations, r.rva + 8 ≤ layout.sizeOfImage) :
    ∃ out, relocate layout delta relocations image = (.ok (), out) ∧
      Relocates relocations delta image out := by
  induction relocations generalizing image with
  | nil =>
    exact ⟨image, rfl, rfl, by simp, fun _ _ => rfl⟩
  | cons r relocations ih =>
    obtain ⟨hkind, hkinds⟩ := List.forall_mem_cons.mp hkinds
    obtain ⟨hfits, hrange⟩ := List.forall_mem_cons.mp hrange
    obtain ⟨hfirst, hapart⟩ := List.pairwise_cons.mp hapart
    obtain ⟨height, hlong⟩ := List.forall_mem_cons.mp hlong
    have hlength : (addAt image r.width r.rva delta).length = image.length :=
      length_splice (by rwa [length_toLE])
    obtain ⟨out, hout, hrelocates⟩ := ih hkinds (by rwa [hlength]) hapart hlong
    rw [relocate_cons hkind, if_neg (by omega), hout]
    exact ⟨out, rfl, hrelocates.cons hfits hfirst⟩

/-- Without eight bytes at a target the loop ends there. -/
theorem relocate_fails
    {layout : Layout} {delta : Nat} {relocations : List TemplateRelocation}
    (image : Bytes)
    (hkinds : ∀ r ∈ relocations, r.kind = 0 ∨ r.kind = 3 ∨ r.kind = 10)
    (hshort : ∃ r ∈ relocations, layout.sizeOfImage < r.rva + 8) :
    (relocate layout delta relocations image).1 = .error (.nt .invalidImageFormat) := by
  induction relocations generalizing image with
  | nil =>
    obtain ⟨r, hr, -⟩ := hshort
    cases hr
  | cons r relocations ih =>
    obtain ⟨hkind, hkinds⟩ := List.forall_mem_cons.mp hkinds
    rw [relocate_cons hkind]
    split
    next =>
      rfl
    next hlong =>
      obtain ⟨r', hr', hshort⟩ := hshort
      rcases List.mem_cons.mp hr' with rfl | hr'
      · exact absurd hshort hlong
      · exact ih _ hkinds ⟨r', hr', hshort⟩

/-! ## The function -/

/-- The image is relocated to the base, in the same way for every order of the relocations and
over every other base. -/
structure RelocatedTo (layout : Layout) (imageBase : Nat) (image : Bytes) : Prop where
  ok : (applyBaseRelocations layout imageBase image).1 = .ok ()
  relocates : Relocates layout.relocations (relocationDelta layout imageBase) image
    (applyBaseRelocations layout imageBase image).2
  order : ∀ relocations, relocations.Perm layout.relocations →
    applyBaseRelocations { layout with relocations } imageBase image =
      applyBaseRelocations layout imageBase image
  compose : ∀ middle < 2 ^ 64,
    applyBaseRelocations { layout with preferredBase := middle } imageBase
        (applyBaseRelocations layout middle image).2 =
      applyBaseRelocations layout imageBase image

theorem applyBaseRelocations_relocates {layout : Layout} {image : Bytes}
    (h : Relocatable layout)
    (himage : image.length = layout.sizeOfImage)
    (hlong : ∀ r ∈ layout.relocations, r.rva + 8 ≤ layout.sizeOfImage)
    (imageBase : Nat) :
    ∃ out, applyBaseRelocations layout imageBase image = (.ok (), out) ∧
      Relocates layout.relocations (relocationDelta layout imageBase) image out := by
  rw [applyBaseRelocations]
  by_cases hzero : relocationDelta layout imageBase = 0
  · rw [if_pos hzero, hzero]
    exact ⟨image, rfl, .zero _ _⟩
  · rw [if_neg hzero, if_pos h.has]
    exact relocate_relocates h.kinds (by rw [himage]; exact h.inRange) h.apart hlong

theorem relocatedTo_of_long {layout : Layout} {image : Bytes} {imageBase : Nat}
    (h : Relocatable layout)
    (himage : image.length = layout.sizeOfImage)
    (hlong : ∀ r ∈ layout.relocations, r.rva + 8 ≤ layout.sizeOfImage)
    (hbase : imageBase < 2 ^ 64) :
    RelocatedTo layout imageBase image := by
  obtain ⟨out, hout, hrelocates⟩ := applyBaseRelocations_relocates h himage hlong imageBase
  refine ⟨by rw [hout], by rwa [hout], fun relocations hperm => ?_, fun middle hmiddle => ?_⟩
  · have h' : Relocatable { layout with relocations } :=
      ⟨h.base_lt, h.has, fun r hr => h.kinds r (hperm.mem_iff.mp hr),
        fun r hr => h.inRange r (hperm.mem_iff.mp hr),
        hperm.symm.pairwise h.apart fun hapart i hi => hapart i hi.symm⟩
    obtain ⟨out', hout', hrelocates'⟩ := applyBaseRelocations_relocates h' himage
      (fun r hr => hlong r (hperm.mem_iff.mp hr)) imageBase
    rw [hout, hout', hrelocates.unique (hrelocates'.perm hperm.symm)]
  · obtain ⟨first, hfirst, hrelocatesFirst⟩ := applyBaseRelocations_relocates h himage hlong middle
    have h' : Relocatable { layout with preferredBase := middle } :=
      ⟨hmiddle, h.has, h.kinds, h.inRange, h.apart⟩
    obtain ⟨second, hsecond, hrelocatesSecond⟩ := applyBaseRelocations_relocates h'
      (hrelocatesFirst.length_eq.trans himage) hlong imageBase
    have hdelta : (relocationDelta layout middle +
        relocationDelta { layout with preferredBase := middle } imageBase) % 2 ^ 64 =
        relocationDelta layout imageBase % 2 ^ 64 := by
      have hpreferred := h.base_lt
      simp only [relocationDelta]
      omega
    rw [hfirst, hsecond, hout,
      ((hrelocatesFirst.trans hrelocatesSecond).congr_delta hdelta).unique hrelocates]

/-- An image with the given relocations. -/
def smallLayout (size : Nat) (relocations : List TemplateRelocation) : Layout where
  preferredBase := 0x10000
  sizeOfImage := size
  sizeOfHeaders := 0
  entryRva := 0
  hasRelocations := true
  headers := []
  sections := []
  relocations := relocations

end Loader
end Kernel
end Theos
