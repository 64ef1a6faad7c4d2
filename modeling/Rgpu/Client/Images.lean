import Rgpu.Foundations.LittleEndian
import Mathlib.Data.UInt

/-! # The length of a module image (`client/rpc.cpp`)

A module is loaded from a pointer, and no length is given. The client infers one from the image, to ship that
much of it: from the header of a fat binary, from the section header table of an ELF, from the NUL at the end
of a text.

* **`imageSize`** — what is inferred.
* **`Image.WellFormed`**, **`Image.ranges`** — the formats, and the bytes that the headers of an image refer to.
* **`imageSize_covers_iff`** — all of them are shipped exactly if nothing in an ELF ends after its section
  header table, and a text starts with one of four characters. -/

namespace Rgpu

open Foundations

/-- `std::memcpy` of a field. -/
def field (image : List UInt8) (offset width : ℕ) : ℕ :=
  LittleEndian.value ((image.drop offset).take width)

/-- The characters that the client takes to start a text: `/`, a newline, `.` and a space. -/
def textStarts : List UInt8 := [0x2f, 0x0a, 0x2e, 0x20]

/-- `\x7fELF`. -/
def elfMagic : List UInt8 := [0x7f, 0x45, 0x4c, 0x46]

/-- The end of `image_size`: PTX arrives as NUL-terminated source text. -/
def textSize (p : List UInt8) : UInt64 :=
  match p with
  | [] => 0
  | c :: _ => if c ∈ textStarts then UInt64.ofNat (p.takeWhile (· ≠ 0)).length + 1 else 0

/-- `image_size`. -/
def imageSize : Option (List UInt8) → UInt64
  | none => 0
  | some p =>
      -- a fat binary says how long its header and its body are
      if field p 0 4 = 0xBA55ED50 then UInt64.ofNat (field p 6 2) + UInt64.ofNat (field p 8 8)
      else if p.take 4 = elfMagic then
        -- the section headers are taken for the end of an ELF file, of 64 bits or of 32
        if p[4]? = some 2 then
          UInt64.ofNat (field p 0x28 8) + UInt64.ofNat (field p 0x3a 2) * UInt64.ofNat (field p 0x3c 2)
        else UInt64.ofNat (field p 0x20 4) + UInt64.ofNat (field p 0x2e 2) * UInt64.ofNat (field p 0x30 2)
      else textSize p

/-! ### The formats -/

/-- Where an ELF of a class has its fields: the length of the header and of an address; the offset and the
number of the program headers and of the section headers and the length of one; in a section header its
offset, size and info, and in a program header its offset and file size. -/
structure ElfClass where
  ident : UInt8
  headerSize : ℕ
  word : ℕ
  phoff : ℕ
  phentsize : ℕ
  phnum : ℕ
  shoff : ℕ
  shentsize : ℕ
  shnum : ℕ
  shOffset : ℕ
  shSize : ℕ
  shInfo : ℕ
  pOffset : ℕ
  pFilesz : ℕ

/-- `ELFCLASS32`. -/
def elf32 : ElfClass :=
  ⟨1, 0x34, 4, 0x1c, 0x2a, 0x2c, 0x20, 0x2e, 0x30, 0x10, 0x14, 0x1c, 0x04, 0x10⟩

/-- `ELFCLASS64`. -/
def elf64 : ElfClass :=
  ⟨2, 0x40, 8, 0x20, 0x36, 0x38, 0x28, 0x3a, 0x3c, 0x18, 0x20, 0x2c, 0x08, 0x20⟩

/-- Bytes of an image: from a start, and so many. -/
structure ByteRange where
  start : ℕ
  size : ℕ
  deriving DecidableEq, Repr

/-- One past the last byte. -/
def ByteRange.stop (r : ByteRange) : ℕ := r.start + r.size

namespace ElfClass

variable (c : ElfClass) (image : List UInt8)

/-- The number of section headers. One that does not fit into the header is the size of the first section. -/
def sections : ℕ :=
  if field image c.shoff c.word = 0 then 0
  else if field image c.shnum 2 = 0 then field image (field image c.shoff c.word + c.shSize) c.word
  else field image c.shnum 2

/-- The number of program headers. One that does not fit is the info of the first section. -/
def segments : ℕ :=
  if field image c.phnum 2 = 0xffff then field image (field image c.shoff c.word + c.shInfo) 4
  else field image c.phnum 2

def sectionTable : ByteRange := ⟨field image c.shoff c.word, field image c.shentsize 2 * c.sections image⟩

def programTable : ByteRange := ⟨field image c.phoff c.word, field image c.phentsize 2 * c.segments image⟩

/-- The contents of a section: none if it is unused (`SHT_NULL`) or takes no space (`SHT_NOBITS`). -/
def sectionRange (i : ℕ) : ByteRange :=
  let header := field image c.shoff c.word + i * field image c.shentsize 2
  if field image (header + 4) 4 = 0 ∨ field image (header + 4) 4 = 8 then ⟨0, 0⟩
  else ⟨field image (header + c.shOffset) c.word, field image (header + c.shSize) c.word⟩

/-- The contents of a segment: none if it is unused (`PT_NULL`). -/
def segmentRange (i : ℕ) : ByteRange :=
  let header := field image c.phoff c.word + i * field image c.phentsize 2
  if field image header 4 = 0 then ⟨0, 0⟩
  else ⟨field image (header + c.pOffset) c.word, field image (header + c.pFilesz) c.word⟩

/-- All that the headers of an ELF refer to, in whatever order it lies in the file. -/
def ranges : List ByteRange :=
  [⟨0, c.headerSize⟩, c.sectionTable image, c.programTable image] ++
    (List.range (c.sections image)).map (c.sectionRange image) ++
    (List.range (c.segments image)).map (c.segmentRange image)

end ElfClass

/-- The formats of an image. -/
inductive ImageFormat
  | fatbin
  | elf (c : ElfClass)
  | ptx

namespace Image

/-- What PTX source can start with: whitespace, a comment, a directive or a line of the preprocessor. -/
def ptxStarts : List UInt8 := [0x20, 0x09, 0x0a, 0x0b, 0x0c, 0x0d, 0x2f, 0x2e, 0x23]

/-- The bytes that an image's own headers refer to. -/
def ranges (image : List UInt8) : ImageFormat → List ByteRange
  | .fatbin => [⟨0, 16⟩, ⟨0, field image 6 2 + field image 8 8⟩]
  | .elf c => c.ranges image
  | .ptx => [⟨0, image.length⟩]

/-- A well formed ELF. A table of section headers has at least one, which has a length. -/
structure WellFormedElf (c : ElfClass) (image : List UInt8) : Prop where
  magic : image.take 4 = elfMagic
  ident : image[4]? = some c.ident
  classes : c = elf32 ∨ c = elf64
  entries : field image c.shoff c.word ≠ 0 → 0 < field image c.shentsize 2 * c.sections image
  noTable : field image c.shoff c.word = 0 → field image c.shnum 2 = 0
  within : ∀ r ∈ c.ranges image, r.stop ≤ image.length

/-- A well formed image: of its format, and with all that it refers to. The header of a fat binary has its
own fields; text is not empty, and ends with its only NUL. -/
def WellFormed (image : List UInt8) : ImageFormat → Prop
  | .fatbin =>
      field image 0 4 = 0xBA55ED50 ∧ 16 ≤ field image 6 2 ∧
        ∀ r ∈ ranges image .fatbin, r.stop ≤ image.length
  | .elf c => WellFormedElf c image
  | .ptx => ∃ c text, image = c :: text ++ [0] ∧ c ∈ ptxStarts ∧ 0 ∉ text

/-- So many bytes are not more than there are, they are not none, and they have all that is referred to. -/
def Covers (format : ImageFormat) (image : List UInt8) (n : ℕ) : Prop :=
  n ≤ image.length ∧ n ≠ 0 ∧ ∀ r ∈ ranges image format, r.stop ≤ n

/-- The images for which the client's assumptions hold: an ELF has a section header table whose length is in
its header, and nothing ends after that table; a text starts with one of the four characters. -/
def Usual (image : List UInt8) : ImageFormat → Prop
  | .fatbin => True
  | .elf c => field image c.shnum 2 ≠ 0 ∧ ∀ r ∈ c.ranges image, r.stop ≤ (c.sectionTable image).stop
  | .ptx => ∃ c ∈ image.head?, c ∈ textStarts

end Image

/-! ### What is inferred -/

/-- The end of a table is computed without wrapping, if it is one of memory. -/
theorem toNat_end {a b c : ℕ} (h : a + b * c < 2 ^ 64) :
    (UInt64.ofNat a + UInt64.ofNat b * UInt64.ofNat c).toNat = a + b * c := by
  rw [← UInt64.ofNat_mul, ← UInt64.ofNat_add, UInt64.toNat_ofNat_of_lt' h]

namespace Image

variable {image : List UInt8} {c : ElfClass}

/-- The first bytes of an ELF are not those of a fat binary. -/
theorem field_of_elfMagic (h : image.take 4 = elfMagic) : field image 0 4 ≠ 0xBA55ED50 := by
  rw [field, List.drop_zero, h]
  decide

/-- **An ELF**: the end of the table of as many section headers as its header has. -/
theorem imageSize_elf (h : WellFormedElf c image) (hsmall : image.length < 2 ^ 64) :
    (imageSize (some image)).toNat =
      field image c.shoff c.word + field image c.shentsize 2 * field image c.shnum 2 := by
  have htable : (c.sectionTable image).stop ≤ image.length := h.within _ (by simp [ElfClass.ranges])
  have hend : field image c.shoff c.word + field image c.shentsize 2 * field image c.shnum 2 < 2 ^ 64 := by
    by_cases hzero : field image c.shnum 2 = 0
    · have hle : field image c.shoff c.word ≤ (c.sectionTable image).stop := Nat.le_add_right _ _
      rw [hzero, Nat.mul_zero, Nat.add_zero]
      omega
    · have hoff : field image c.shoff c.word ≠ 0 := fun hnone => hzero (h.noTable hnone)
      rw [ByteRange.stop, ElfClass.sectionTable, ElfClass.sections, if_neg hoff, if_neg hzero] at htable
      dsimp only at htable
      omega
  have hident := h.ident
  rw [imageSize, if_neg (field_of_elfMagic h.magic), if_pos h.magic]
  rcases h.classes with rfl | rfl
  · rw [if_neg (by rw [hident]; decide)]
    exact toNat_end hend
  · have htwo : image[4]? = some 2 := hident
    rw [if_pos htwo]
    exact toNat_end hend

/-- An ELF is covered exactly if it is usual. -/
theorem covers_elf_iff (h : WellFormedElf c image) (hsmall : image.length < 2 ^ 64) :
    Covers (.elf c) image (imageSize (some image)).toNat ↔ Usual image (.elf c) := by
  have hmem : c.sectionTable image ∈ c.ranges image := by simp [ElfClass.ranges]
  have hheader : (⟨0, c.headerSize⟩ : ByteRange) ∈ c.ranges image := by simp [ElfClass.ranges]
  have hpositive : 0 < c.headerSize := by rcases h.classes with rfl | rfl <;> decide
  rw [imageSize_elf h hsmall]
  -- with as many section headers as the header says, this is where their table ends
  have hstop : field image c.shnum 2 ≠ 0 → (c.sectionTable image).stop =
      field image c.shoff c.word + field image c.shentsize 2 * field image c.shnum 2 := by
    intro hne
    have hoff : field image c.shoff c.word ≠ 0 := fun hnone => hne (h.noTable hnone)
    rw [ByteRange.stop, ElfClass.sectionTable, ElfClass.sections, if_neg hoff, if_neg hne]
  constructor
  · rintro ⟨-, hne, hcovers⟩
    have hnum : field image c.shnum 2 ≠ 0 := by
      intro hzero
      rw [hzero, Nat.mul_zero, Nat.add_zero] at hne hcovers
      have hentries := h.entries hne
      have htable := hcovers _ hmem
      rw [ByteRange.stop, ElfClass.sectionTable] at htable
      dsimp only at htable
      omega
    refine ⟨hnum, fun r hr => ?_⟩
    rw [hstop hnum]
    exact hcovers r hr
  · rintro ⟨hnum, hlast⟩
    rw [← hstop hnum]
    refine ⟨h.within _ hmem, fun hzero => ?_, hlast⟩
    have hle := hlast _ hheader
    rw [hzero, ByteRange.stop] at hle
    dsimp only at hle
    omega

/-- **A fat binary**: all of it. -/
theorem covers_fatbin (h : WellFormed image .fatbin) (hsmall : image.length < 2 ^ 64) :
    Covers .fatbin image (imageSize (some image)).toNat := by
  obtain ⟨hmagic, hheader, hwithin⟩ := h
  have hall := hwithin ⟨0, field image 6 2 + field image 8 8⟩ (by simp [ranges])
  rw [ByteRange.stop, Nat.zero_add] at hall
  dsimp only at hall
  have hsize : (imageSize (some image)).toNat = field image 6 2 + field image 8 8 := by
    rw [imageSize, if_pos hmagic, ← UInt64.ofNat_add, UInt64.toNat_ofNat_of_lt' (show _ < 2 ^ 64 by omega)]
  rw [hsize]
  refine ⟨hall, by omega, fun r hr => ?_⟩
  simp only [ranges, List.mem_cons, List.not_mem_nil, or_false] at hr
  rcases hr with rfl | rfl
  · rw [ByteRange.stop, Nat.zero_add]
    exact Nat.le_trans hheader (Nat.le_add_right _ _)
  · rw [ByteRange.stop, Nat.zero_add]

/-- No text starts as the other formats do. -/
theorem imageSize_text {a : UInt8} {text : List UInt8} (ha : a ∈ ptxStarts) :
    imageSize (some (a :: text)) = textSize (a :: text) := by
  have hfatbin : field (a :: text) 0 4 ≠ 0xBA55ED50 := by
    have hlow : field (a :: text) 0 4 % 256 = a.toNat := by
      have hbyte := a.toNat_lt
      rw [field, List.drop_zero, List.take_succ_cons, LittleEndian.value]
      omega
    intro hmagic
    rw [hmagic] at hlow
    have hnone : ptxStarts.all (fun x => decide (x.toNat ≠ 0x50)) = true := by decide
    have hnot := of_decide_eq_true (List.all_eq_true.mp hnone a ha)
    apply hnot
    omega
  have helf : (a :: text).take 4 ≠ elfMagic := by
    intro hmagic
    rw [List.take_succ_cons, elfMagic] at hmagic
    obtain ⟨rfl, -⟩ := List.cons.inj hmagic
    exact absurd ha (by decide)
  rw [imageSize, if_neg hfatbin, if_neg helf]

/-- Text is covered exactly if it is usual. -/
theorem covers_ptx_iff (h : WellFormed image .ptx) (hsmall : image.length < 2 ^ 64) :
    Covers .ptx image (imageSize (some image)).toNat ↔ Usual image .ptx := by
  obtain ⟨a, text, rfl, ha, htext⟩ := h
  have hnonzero : ∀ x ∈ a :: text, decide (x ≠ 0) = true := by
    intro x hx
    refine decide_eq_true fun hzero => ?_
    subst hzero
    rcases List.mem_cons.mp hx with rfl | hx
    · exact absurd ha (by decide)
    · exact htext hx
  have hlen : ((a :: text ++ [0]).takeWhile (· ≠ 0)).length + 1 = (a :: text ++ [0]).length := by
    rw [List.takeWhile_append_of_pos hnonzero]
    rw [List.takeWhile_cons_of_neg (by decide), List.append_nil, List.length_append]
    rfl
  have husual : Usual (a :: text ++ [0]) .ptx ↔ a ∈ textStarts := by
    simp only [Usual, List.cons_append, List.head?_cons, Option.mem_some_iff, exists_eq_left']
  rw [husual, List.cons_append, imageSize_text ha, ← List.cons_append]
  by_cases hstart : a ∈ textStarts
  · have hsize : (textSize (a :: text ++ [0])).toNat = (a :: text ++ [0]).length := by
      rw [List.cons_append, textSize, if_pos hstart, ← List.cons_append]
      rw [← hlen] at hsmall ⊢
      rw [UInt64.toNat_add, UInt64.toNat_ofNat_of_lt' (show _ < 2 ^ 64 by omega)]
      exact Nat.mod_eq_of_lt hsmall
    refine iff_of_true ⟨Nat.le_of_eq hsize, ?_, fun r hr => ?_⟩ hstart
    · rw [hsize]
      exact Nat.succ_ne_zero _
    · rw [List.mem_singleton.mp hr, hsize, ByteRange.stop, Nat.zero_add]
  · have hsize : textSize (a :: text ++ [0]) = 0 := by
      rw [List.cons_append, textSize, if_neg hstart]
    refine iff_of_false (fun hcovers => hcovers.2.1 ?_) hstart
    rw [hsize]
    rfl

end Image

/-- **When an image is shipped whole.** For every well formed image, what is inferred is not past its end, not
nothing, and covers what its headers refer to, exactly if it is as the client assumes. -/
theorem imageSize_covers_iff (format : ImageFormat) (image : List UInt8) (h : Image.WellFormed image format)
    (hsmall : image.length < 2 ^ 64) :
    Image.Covers format image (imageSize (some image)).toNat ↔ Image.Usual image format := by
  cases format with
  | fatbin => exact iff_of_true (Image.covers_fatbin h hsmall) trivial
  | elf c => exact Image.covers_elf_iff h hsmall
  | ptx => exact Image.covers_ptx_iff h hsmall

/-- The program headers of this ELF come after its section headers: one segment, which has the header, and
one unused section. -/
def laidOutElf : List UInt8 :=
  elfMagic ++ [2, 1, 1] ++ List.replicate 25 0 ++
    LittleEndian.bytes 8 128 ++ LittleEndian.bytes 8 64 ++ LittleEndian.bytes 4 0 ++ LittleEndian.bytes 2 64 ++
    LittleEndian.bytes 2 56 ++ LittleEndian.bytes 2 1 ++ LittleEndian.bytes 2 64 ++ LittleEndian.bytes 2 1 ++
    LittleEndian.bytes 2 0 ++ List.replicate 64 0 ++
    (LittleEndian.bytes 4 1 ++ LittleEndian.bytes 4 4 ++ LittleEndian.bytes 8 0 ++ List.replicate 16 0 ++
      LittleEndian.bytes 8 64 ++ List.replicate 16 0)

/-- `\t.version 8.0`. -/
def tabbedText : List UInt8 :=
  [0x09, 0x2e, 0x76, 0x65, 0x72, 0x73, 0x69, 0x6f, 0x6e, 0x20, 0x38, 0x2e, 0x30, 0]

/-- A text of this kind is taken whole; here it starts with a newline. -/
theorem imageSize_covers_text :
    Image.Covers .ptx (0x0a :: tabbedText) (imageSize (some (0x0a :: tabbedText))).toNat :=
  (imageSize_covers_iff .ptx (0x0a :: tabbedText) ⟨0x0a, tabbedText.dropLast, by decide, by decide, by decide⟩
    (by decide)).mpr ⟨0x0a, rfl, by decide⟩

/-- **Two images that are not shipped whole**: of the first the program headers are cut off, and of the
second nothing is left. -/
theorem image_cut_off :
    (Image.WellFormed laidOutElf (.elf elf64) ∧ (imageSize (some laidOutElf)).toNat = 128 ∧
      laidOutElf.length = 184 ∧ (⟨128, 56⟩ : ByteRange) ∈ Image.ranges laidOutElf (.elf elf64)) ∧
    Image.WellFormed tabbedText .ptx ∧ imageSize (some tabbedText) = 0 := by
  refine ⟨⟨⟨by decide, by decide, Or.inr rfl, ?_, ?_, ?_⟩, ?_, ?_, ?_⟩, ?_, ?_⟩
  · decide +kernel
  · decide +kernel
  · decide +kernel
  · decide +kernel
  · decide +kernel
  · decide +kernel
  · exact ⟨0x09, tabbedText.tail.dropLast, by decide, by decide, by decide⟩
  · decide +kernel

end Rgpu
