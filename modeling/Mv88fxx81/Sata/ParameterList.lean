import Mathlib.Data.List.GetD
import Mv88fxx81.Sata.EmulatedData

/-!
# The parameter list of a MODE SELECT

The lists that `modeSelect` accepts, as a grammar: a header, a block descriptor or none, and mode
pages. The fields of the pages that cannot be changed are to be as MODE SENSE reports them. The list
may also be empty, and of several caching pages only the last one is looked at in full.

A control page is compared before it is known to end inside the list. The bytes that the parser
reads are listed next to it.
-/

namespace Mv88fxx81.Sata

section Grammar

/-- A block descriptor for blocks of 512 bytes. -/
def blockDescriptor : List UInt8 := [0, 0, 0, 0, 0, 0, 2, 0]

/-- The control page with its current values. None of its fields can be changed. -/
def currentControlPage : List UInt8 := mvModeSenseControlPage 0

/-- A caching page by its code and its length. -/
structure CachingFrame (page : List UInt8) : Prop where
  length_eq : page.length = 20
  code : page.getD 0 0 &&& 0x3f = 0x08
  pageLength : page.getD 1 0 = 0x12

/-- The fields that cannot be changed have their current values. -/
def CarriesCurrent (current changeable page : List UInt8) : Prop :=
  ∀ i < 20, 2 ≤ i →
    page.getD i 0 &&& ~~~changeable.getD i 0 = current.getD i 0 &&& ~~~changeable.getD i 0

/-- A caching page for a drive: its unchangeable fields are as MODE SENSE reports them. -/
structure ValidCachingPage (contents : DriveContents) (drive : DriveData) (page : List UInt8) :
    Prop extends CachingFrame page where
  code_eq : page.getD 0 0 = 0x08
  carriesCurrent : CarriesCurrent (mvModeSenseCachingPage contents drive 0)
    (mvModeSenseCachingPage contents drive 1) page

/-- A page of a parameter list. -/
def PageFrame (page : List UInt8) : Prop := CachingFrame page ∨ page = currentControlPage

/-- The last caching page of a list of pages. -/
def lastCachingPage (pages : List (List UInt8)) : Option (List UInt8) :=
  (pages.filter fun page => page.getD 0 0 &&& 0x3f == 0x08).getLast?

/-- The parameter lists that are accepted, with their last caching page. -/
inductive ParameterList (contents : DriveContents) (drive : DriveData) :
    List UInt8 → Option (List UInt8) → Prop
  | empty : ParameterList contents drive [] none
  | header {descriptor : List UInt8} {pages : List (List UInt8)}
      (hdescriptor : descriptor = [] ∨ descriptor = blockDescriptor)
      (hpages : ∀ page ∈ pages, PageFrame page)
      (hlast : ∀ page ∈ lastCachingPage pages, ValidCachingPage contents drive page) :
      ParameterList contents drive
        ([0, 0, 0, UInt8.ofNat descriptor.length] ++ descriptor ++ pages.flatten)
        (lastCachingPage pages)

/-- The parameter lists with a header, and with all caching pages valid. -/
def StrictParameterList (contents : DriveContents) (drive : DriveData) (bytes : List UInt8) :
    Prop :=
  ∃ (descriptor : List UInt8) (pages : List (List UInt8)),
    (descriptor = [] ∨ descriptor = blockDescriptor) ∧
    (∀ page ∈ pages, ValidCachingPage contents drive page ∨ page = currentControlPage) ∧
    bytes = [0, 0, 0, UInt8.ofNat descriptor.length] ++ descriptor ++ pages.flatten

/-- The features that the SET FEATURES commands for a caching page select. -/
def pageFeatures (drive : DriveData) (page : List UInt8) : List UInt16 :=
  (if drive.identifyInfo.writeCacheSupported then
    [if page.getD 2 0 &&& 0x04 != 0 then 0x02 else 0x82] else []) ++
  if drive.identifyInfo.readAheadSupported then
    [if page.getD 12 0 &&& 0x20 != 0 then 0x55 else 0xAA] else []

end Grammar

section Reads

/-- The indices of the fields that a comparison reads: it ends with the first field that is not as
it should be. -/
def fieldReads (memory : ℕ → UInt8) : List (ℕ × (UInt8 → Bool)) → List ℕ
  | [] => []
  | (i, allowed) :: fields => i :: if allowed (memory i) then fieldReads memory fields else []

/-- All fields are as they should be. -/
def fieldsAllowed (memory : ℕ → UInt8) (fields : List (ℕ × (UInt8 → Bool))) : Bool :=
  fields.all fun field => field.2 (memory field.1)

/-- The fields of the header that are compared, in the order of the source. -/
def headerFields : List (ℕ × (UInt8 → Bool)) := [(0, (· == 0)), (1, (· == 0)), (2, (· == 0))]

/-- The fields of the block descriptor. -/
def descriptorFields : List (ℕ × (UInt8 → Bool)) :=
  [(4, (· == 0)), (5, (· == 0)), (6, (· == 0)), (7, (· == 0)), (8, (· == 0)), (9, (· == 0)),
    (10, (· == 2)), (11, (· == 0))]

/-- The fields of a control page. -/
def controlFields (offset : ℕ) : List (ℕ × (UInt8 → Bool)) :=
  [(offset, (· == 0x0a)), (offset + 1, (· == 0x0a)), (offset + 3, (· == 0x10)),
    (offset + 2, (· == 0)), (offset + 4, (· == 0)), (offset + 5, (· == 0)), (offset + 6, (· == 0)),
    (offset + 7, (· == 0)), (offset + 8, (· == 0)), (offset + 9, (· == 0)), (offset + 10, (· == 0)),
    (offset + 11, (· == 0))]

/-- The fields of a caching page. -/
def cachingFields (offset : ℕ) : List (ℕ × (UInt8 → Bool)) :=
  [(offset, (· &&& 0xc0 == 0)), (offset + 1, (· == 0x12)), (offset + 2, (· ||| 0x04 == 0x04)),
    (offset + 3, (· == 0)), (offset + 4, (· == 0xff)), (offset + 5, (· == 0xff)),
    (offset + 6, (· == 0)), (offset + 7, (· == 0)), (offset + 8, (· == 0)),
    (offset + 9, (· == 0x10)), (offset + 10, (· == 0)), (offset + 11, (· == 0x10)),
    (offset + 12, (· ||| 0x20 == 0x20)), (offset + 13, (· == 0x01)), (offset + 14, (· == 0xff)),
    (offset + 15, (· == 0xff)), (offset + 16, (· == 0)), (offset + 17, (· == 0)),
    (offset + 18, (· == 0)), (offset + 19, (· == 0))]

/-- The bytes that the loop over the mode pages reads. -/
def pageReads (memory : ℕ → UInt8) (length : ℕ) : ℕ → ℕ → List ℕ
  | 0, _ => []
  | rounds + 1, offset =>
    if offset + 2 < length then
      offset ::
        if memory offset &&& 0x3f = 0x08 then
          (offset + 1) ::
            if memory (offset + 1) ≠ 0x12 then []
            else pageReads memory length rounds (offset + (memory (offset + 1)).toNat + 2)
        else if memory offset &&& 0x3f = 0x0a then
          fieldReads memory (controlFields offset) ++
            if fieldsAllowed memory (controlFields offset) then
              pageReads memory length rounds (offset + (memory (offset + 1)).toNat + 2)
            else []
        else []
    else []

/-- The bytes that `mvParseModeCachingPage` reads: it looks at two fields once more. -/
def cachingReads (memory : ℕ → UInt8) (offset : ℕ) : List ℕ :=
  fieldReads memory (cachingFields offset) ++
    if fieldsAllowed memory (cachingFields offset) then [offset + 12, offset + 2] else []

/-- The bytes that `modeSelect` reads behind the block descriptor. -/
def modePagesReads (memory : ℕ → UInt8) (length start : ℕ) : List ℕ :=
  if length = start then []
  else
    pageReads memory length length start ++
      match modePages memory length length start 0 with
      | .error _ => []
      | .ok (offset, cachePageOffset) =>
        if length = offset ∧ cachePageOffset ≠ 0 then cachingReads memory cachePageOffset else []

/-- The bytes of the parameter list that `modeSelect` reads. -/
def modeSelectReads (scb : Scb) : List ℕ :=
  let memory := fun i => scb.pDataBuffer.getD i 0
  let length := scb.dataBufferLength.toNat
  if scb.cmd 1 &&& 0x10 = 0 ∨ scb.cmd 1 &&& 0x01 = 1 ∨ length < 4 then []
  else
    fieldReads memory headerFields ++
      if fieldsAllowed memory headerFields then
        3 ::
          if memory 3 = 0 then modePagesReads memory length 4
          else if memory 3 ≠ 8 ∨ length < 12 then []
          else
            fieldReads memory descriptorFields ++
              if fieldsAllowed memory descriptorFields then modePagesReads memory length 12 else []
      else []

end Reads

section Pages

variable {memory : ℕ → UInt8} {bytes page : List UInt8} {pages : List (List UInt8)}
  {length rounds offset cache cache' : ℕ}

/-- The fields of a control page are as the loop compares them. -/
theorem controlFields_allowed :
    fieldsAllowed memory (controlFields offset) = true ↔
      ¬ (memory offset ≠ 0x0a ∨ memory (offset + 1) ≠ 0x0a ∨ memory (offset + 3) ≠ 0x10 ∨
        memory (offset + 2) ≠ 0 ∨ memory (offset + 4) ≠ 0 ∨ memory (offset + 5) ≠ 0 ∨
        memory (offset + 6) ≠ 0 ∨ memory (offset + 7) ≠ 0 ∨ memory (offset + 8) ≠ 0 ∨
        memory (offset + 9) ≠ 0 ∨ memory (offset + 10) ≠ 0 ∨ memory (offset + 11) ≠ 0) := by
  simp only [fieldsAllowed, controlFields, List.all_cons, List.all_nil, Bool.and_true,
    Bool.and_eq_true, beq_iff_eq, not_or, ne_eq, Decidable.not_not]

/-- The loop ends where fewer than three bytes are left. -/
theorem modePages_end (hend : ¬ offset + 2 < length) :
    modePages memory length rounds offset cache = .ok (offset, cache) := by
  cases rounds with
  | zero => rfl
  | succ rounds => rw [modePages, if_neg hend]

/-- A round with a caching page. -/
theorem modePages_caching (hlt : offset + 2 < length) (hcode : memory offset &&& 0x3f = 0x08) :
    modePages memory length (rounds + 1) offset cache =
      if memory (offset + 1) = 0x12 then modePages memory length rounds (offset + 20) offset
      else .error .invalidFieldInList := by
  rw [modePages, if_pos hlt, if_pos hcode]
  by_cases hlength : memory (offset + 1) = 0x12
  · rw [if_neg (by simp [hlength]), if_pos hlength, hlength]
    rfl
  · rw [if_pos hlength, if_neg hlength]

/-- A round with a control page. -/
theorem modePages_control (hlt : offset + 2 < length) (hcode : memory offset &&& 0x3f = 0x0a) :
    modePages memory length (rounds + 1) offset cache =
      if fieldsAllowed memory (controlFields offset) then
        modePages memory length rounds (offset + 12) cache
      else .error .invalidFieldInList := by
  have hother : ¬ memory offset &&& 0x3f = 0x08 := by
    rw [hcode]
    decide
  rw [modePages, if_pos hlt, if_neg hother, if_pos hcode]
  by_cases hfields : fieldsAllowed memory (controlFields offset) = true
  · have hvalid := controlFields_allowed.1 hfields
    have hlength : memory (offset + 1) = 0x0a :=
      Decidable.not_not.1 fun hne => hvalid (Or.inr (Or.inl hne))
    rw [if_neg hvalid, if_pos hfields, hlength]
    rfl
  · have hinvalid := Decidable.not_not.1 fun hvalid => hfields (controlFields_allowed.2 hvalid)
    rw [if_pos hinvalid, if_neg hfields]

/-- A round with any other page. -/
theorem modePages_other (hlt : offset + 2 < length) (hcaching : ¬ memory offset &&& 0x3f = 0x08)
    (hcontrol : ¬ memory offset &&& 0x3f = 0x0a) :
    modePages memory length (rounds + 1) offset cache = .error .invalidFieldInList := by
  rw [modePages, if_pos hlt, if_neg hcaching, if_neg hcontrol]

theorem lastCachingPage_caching (hpage : CachingFrame page) :
    lastCachingPage (page :: pages) = some ((lastCachingPage pages).getD page) := by
  rw [lastCachingPage, List.filter_cons, if_pos (beq_iff_eq.2 hpage.code), List.getLast?_cons]
  rfl

theorem lastCachingPage_control :
    lastCachingPage (currentControlPage :: pages) = lastCachingPage pages := by
  rw [lastCachingPage, List.filter_cons, if_neg (by decide)]
  rfl

/-- The position of the last caching page among pages, that kept from before if there is none. -/
inductive LastAt (bytes : List UInt8) (pages : List (List UInt8)) (cache cache' : ℕ) : Prop
  | none (hnone : lastCachingPage pages = Option.none) (hcache : cache' = cache)
  | some {page : List UInt8} (hpage : lastCachingPage pages = Option.some page)
      (hat : (bytes.drop cache').take 20 = page) (hpos : 0 < cache')
      (hend : cache' + 20 ≤ bytes.length)

/-- One more caching page in front of the others. -/
theorem LastAt.caching (h : LastAt bytes pages offset cache') (hpage : CachingFrame page)
    (hat : (bytes.drop offset).take 20 = page) (hpos : 0 < offset)
    (hend : offset + 20 ≤ bytes.length) : LastAt bytes (page :: pages) cache cache' := by
  have hlast : lastCachingPage (page :: pages) = Option.some ((lastCachingPage pages).getD page) :=
    lastCachingPage_caching hpage
  cases h with
  | none hnone hcache =>
    rw [hnone] at hlast
    exact .some hlast (hcache ▸ hat) (hcache ▸ hpos) (hcache ▸ hend)
  | some hpage' hat' hpos' hend' =>
    rw [hpage'] at hlast
    exact .some hlast hat' hpos' hend'

/-- One more control page in front of the others. -/
theorem LastAt.control (h : LastAt bytes pages cache cache') :
    LastAt bytes (currentControlPage :: pages) cache cache' := by
  cases h with
  | none hnone hcache => exact .none (lastCachingPage_control.trans hnone) hcache
  | some hpage hat hpos hend => exact .some (lastCachingPage_control.trans hpage) hat hpos hend

/-- A byte of the memory is a byte of what is left of the list. -/
theorem memory_drop (hmemory : ∀ i < bytes.length, memory i = bytes.getD i 0) {i : ℕ}
    (hi : offset + i < bytes.length) : memory (offset + i) = (bytes.drop offset).getD i 0 := by
  rw [hmemory _ hi, List.getD_eq_getElem?_getD, List.getD_eq_getElem?_getD, List.getElem?_drop]

/-- The next bytes are a caching page. -/
theorem cachingFrame_take (hmemory : ∀ i < bytes.length, memory i = bytes.getD i 0)
    (hend : offset + 20 ≤ bytes.length) (hcode : memory offset &&& 0x3f = 0x08)
    (hlength : memory (offset + 1) = 0x12) : CachingFrame ((bytes.drop offset).take 20) := by
  have hbyte : ∀ i < 20, ((bytes.drop offset).take 20).getD i 0 = memory (offset + i) := by
    intro i hi
    rw [memory_drop hmemory (by omega), List.getD_eq_getElem?_getD, List.getD_eq_getElem?_getD,
      List.getElem?_take_of_lt hi]
  refine ⟨?_, ?_, ?_⟩
  · rw [List.length_take, List.length_drop]
    omega
  · rw [hbyte 0 (by omega)]
    exact hcode
  · rw [hbyte 1 (by omega)]
    exact hlength

/-- The next bytes are a control page. -/
theorem currentControlPage_take (hmemory : ∀ i < bytes.length, memory i = bytes.getD i 0)
    (hend : offset + 12 ≤ bytes.length)
    (hfields : fieldsAllowed memory (controlFields offset) = true) :
    (bytes.drop offset).take 12 = currentControlPage := by
  have hbyte : ∀ i < 12, ((bytes.drop offset).take 12)[i]? = some (memory (offset + i)) := by
    intro i hi
    have hlt : i < (bytes.drop offset).length := by
      rw [List.length_drop]
      omega
    rw [memory_drop hmemory (by omega), List.getElem?_take_of_lt hi, List.getD_eq_getElem?_getD,
      List.getElem?_eq_getElem hlt]
    rfl
  have hvalid := controlFields_allowed.1 hfields
  simp only [not_or, ne_eq, Decidable.not_not] at hvalid
  obtain ⟨h0, h1, h3, h2, h4, h5, h6, h7, h8, h9, h10, h11⟩ := hvalid
  refine List.ext_getElem? fun i => ?_
  by_cases hi : i < 12
  · rw [hbyte i hi]
    match i, hi with
    | 0, _ => exact congrArg some h0
    | 1, _ => exact congrArg some h1
    | 2, _ => exact congrArg some h2
    | 3, _ => exact congrArg some h3
    | 4, _ => exact congrArg some h4
    | 5, _ => exact congrArg some h5
    | 6, _ => exact congrArg some h6
    | 7, _ => exact congrArg some h7
    | 8, _ => exact congrArg some h8
    | 9, _ => exact congrArg some h9
    | 10, _ => exact congrArg some h10
    | 11, _ => exact congrArg some h11
  · rw [List.getElem?_eq_none (by rw [List.length_take]; omega),
      List.getElem?_eq_none (by show 12 ≤ i; omega)]

/-- The loop goes through to the end of the list only over pages. -/
theorem pages_of_modePages (hmemory : ∀ i < bytes.length, memory i = bytes.getD i 0)
    (hrounds : bytes.length ≤ offset + rounds) (hpos : 0 < offset)
    (hoffset : offset ≤ bytes.length)
    (hparse : modePages memory bytes.length rounds offset cache = .ok (bytes.length, cache')) :
    ∃ pages : List (List UInt8), bytes.drop offset = pages.flatten ∧
      (∀ page ∈ pages, PageFrame page) ∧ LastAt bytes pages cache cache' := by
  induction rounds generalizing offset cache with
  | zero =>
    obtain ⟨rfl, rfl⟩ := Prod.mk.inj (Except.ok.inj hparse)
    exact ⟨[], by simp, by simp, .none rfl rfl⟩
  | succ rounds ih =>
    by_cases hlt : offset + 2 < bytes.length
    · by_cases hcaching : memory offset &&& 0x3f = 0x08
      · rw [modePages_caching hlt hcaching] at hparse
        by_cases hlength : memory (offset + 1) = 0x12
        · rw [if_pos hlength] at hparse
          by_cases hend : offset + 20 ≤ bytes.length
          · obtain ⟨pages, hdrop, hframes, hlast⟩ := ih (by omega) (by omega) hend hparse
            have hframe := cachingFrame_take hmemory hend hcaching hlength
            refine ⟨(bytes.drop offset).take 20 :: pages, ?_, ?_,
              hlast.caching hframe rfl hpos hend⟩
            · rw [List.flatten_cons, ← hdrop, ← List.drop_drop, List.take_append_drop]
            · intro page hmem
              rcases List.mem_cons.1 hmem with rfl | hmem
              · exact Or.inl hframe
              · exact hframes page hmem
          · rw [modePages_end (by omega)] at hparse
            have := (Prod.mk.inj (Except.ok.inj hparse)).1
            omega
        · rw [if_neg hlength] at hparse
          cases hparse
      · by_cases hcontrol : memory offset &&& 0x3f = 0x0a
        · rw [modePages_control hlt hcontrol] at hparse
          by_cases hfields : fieldsAllowed memory (controlFields offset) = true
          · rw [if_pos hfields] at hparse
            by_cases hend : offset + 12 ≤ bytes.length
            · obtain ⟨pages, hdrop, hframes, hlast⟩ := ih (by omega) (by omega) hend hparse
              have hpage := currentControlPage_take hmemory hend hfields
              refine ⟨currentControlPage :: pages, ?_, ?_, hlast.control⟩
              · rw [List.flatten_cons, ← hdrop, ← List.drop_drop, ← hpage, List.take_append_drop]
              · intro page hmem
                rcases List.mem_cons.1 hmem with rfl | hmem
                · exact Or.inr rfl
                · exact hframes page hmem
            · rw [modePages_end (by omega)] at hparse
              have := (Prod.mk.inj (Except.ok.inj hparse)).1
              omega
          · rw [if_neg hfields] at hparse
            cases hparse
        · rw [modePages_other hlt hcaching hcontrol] at hparse
          cases hparse
    · rw [modePages_end hlt] at hparse
      obtain ⟨hoffset', rfl⟩ := Prod.mk.inj (Except.ok.inj hparse)
      exact ⟨[], by simp [hoffset'], by simp, .none rfl rfl⟩

/-- The loop goes through over pages. -/
theorem modePages_of_pages (hmemory : ∀ i < bytes.length, memory i = bytes.getD i 0)
    (hpages : ∀ page ∈ pages, PageFrame page) (hrounds : bytes.length ≤ offset + rounds)
    (hpos : 0 < offset) (hoffset : offset ≤ bytes.length)
    (hdrop : bytes.drop offset = pages.flatten) :
    ∃ cache', modePages memory bytes.length rounds offset cache = .ok (bytes.length, cache') ∧
      LastAt bytes pages cache cache' := by
  induction pages generalizing offset cache rounds with
  | nil =>
    have hend : offset = bytes.length := by
      have := congrArg List.length hdrop
      rw [List.length_drop] at this
      simp at this
      omega
    exact ⟨cache, by rw [modePages_end (by omega), hend], .none rfl rfl⟩
  | cons page pages ih =>
    have hlengths := congrArg List.length hdrop
    rw [List.flatten_cons, List.length_append, List.length_drop] at hlengths
    have hrest : ∀ n, page.length = n → bytes.drop (offset + n) = pages.flatten := by
      rintro n rfl
      rw [← List.drop_drop, hdrop, List.flatten_cons, List.drop_left]
    have hbyte : ∀ i < page.length, memory (offset + i) = page.getD i 0 := by
      intro i hi
      rw [memory_drop hmemory (by omega), hdrop, List.flatten_cons, List.getD_append _ _ _ _ hi]
    have hframes : ∀ page' ∈ pages, PageFrame page' :=
      fun page' hmem => hpages page' (List.mem_cons_of_mem _ hmem)
    rcases hpages page List.mem_cons_self with hframe | rfl
    · have hlength := hframe.length_eq
      have hat : (bytes.drop offset).take 20 = page := by
        rw [hdrop, List.flatten_cons, ← hlength, List.take_left]
      have hcode : memory offset &&& 0x3f = 0x08 := by
        rw [show memory offset = page.getD 0 0 from hbyte 0 (by omega)]
        exact hframe.code
      have hpageLength : memory (offset + 1) = 0x12 := by
        rw [hbyte 1 (by omega)]
        exact hframe.pageLength
      match rounds with
      | 0 => omega
      | rounds + 1 =>
        obtain ⟨cache', hparse, hlast⟩ := @ih rounds (offset + 20) offset hframes (by omega)
          (by omega) (by omega) (hrest 20 hlength)
        refine ⟨cache', ?_, hlast.caching hframe hat hpos (by omega)⟩
        rw [modePages_caching (by omega) hcode, if_pos hpageLength, hparse]
    · have hlength : currentControlPage.length = 12 := rfl
      have hcode : memory offset &&& 0x3f = 0x0a := by
        rw [show memory offset = currentControlPage.getD 0 0 from hbyte 0 (by omega)]
        rfl
      have hfields : fieldsAllowed memory (controlFields offset) = true := by
        have h0 : memory offset = currentControlPage.getD 0 0 := hbyte 0 (by omega)
        simp only [fieldsAllowed, controlFields, List.all_cons, List.all_nil, h0,
          hbyte 1 (by omega), hbyte 2 (by omega), hbyte 3 (by omega), hbyte 4 (by omega),
          hbyte 5 (by omega), hbyte 6 (by omega), hbyte 7 (by omega), hbyte 8 (by omega),
          hbyte 9 (by omega), hbyte 10 (by omega), hbyte 11 (by omega)]
        rfl
      match rounds with
      | 0 => omega
      | rounds + 1 =>
        obtain ⟨cache', hparse, hlast⟩ := @ih rounds (offset + 12) cache hframes (by omega)
          (by omega) (by omega) (hrest 12 hlength)
        refine ⟨cache', ?_, hlast.control⟩
        rw [modePages_control (by omega) hcode, if_pos hfields, hparse]

end Pages

section List

variable {memory : ℕ → UInt8} {bytes behind rest : List UInt8} {scb : Scb} {position : Option ℕ}

/-- A list begins with a block descriptor that is accepted, or with none. -/
theorem blockDescriptorError_eq_none {size : UInt8}
    (hmemory : ∀ i < bytes.length, memory i = bytes.getD i 0)
    (hbytes : bytes = [0, 0, 0, size] ++ rest) :
    blockDescriptorError memory bytes.length = none ↔
      ∃ descriptor tail, (descriptor = [] ∨ descriptor = blockDescriptor) ∧
        size = UInt8.ofNat descriptor.length ∧ rest = descriptor ++ tail := by
  have hlength : bytes.length = 4 + rest.length := by
    rw [hbytes, List.length_append]
    rfl
  have hsize : memory 3 = size := by
    rw [hmemory 3 (by omega), hbytes]
    rfl
  have hrest : ∀ i < rest.length, memory (4 + i) = rest.getD i 0 := by
    intro i hi
    rw [hmemory _ (by omega), hbytes, List.getD_append_right _ _ _ _ (by simp)]
    congr 1
    simp
  unfold blockDescriptorError
  rw [hsize]
  constructor
  · intro hnone
    by_cases hzero : size = 0
    · exact ⟨[], rest, Or.inl rfl, hzero, rfl⟩
    · rw [if_neg hzero] at hnone
      by_cases height : size = 8
      · rw [if_neg (by simp [height])] at hnone
        by_cases hshort : bytes.length < 12
        · rw [if_pos hshort] at hnone
          cases hnone
        · rw [if_neg hshort] at hnone
          by_cases hfields : memory 4 ≠ 0 ∨ memory 5 ≠ 0 ∨ memory 6 ≠ 0 ∨ memory 7 ≠ 0 ∨
              memory 8 ≠ 0 ∨ memory 9 ≠ 0 ∨ memory 10 ≠ 2 ∨ memory 11 ≠ 0
          · rw [if_pos hfields] at hnone
            cases hnone
          · refine ⟨rest.take 8, rest.drop 8, Or.inr ?_, ?_, (List.take_append_drop 8 rest).symm⟩
            · simp only [not_or, ne_eq, Decidable.not_not] at hfields
              obtain ⟨h4, h5, h6, h7, h8, h9, h10, h11⟩ := hfields
              refine List.ext_getElem? fun i => ?_
              by_cases hi : i < 8
              · have hbyte : (rest.take 8)[i]? = some (memory (4 + i)) := by
                  rw [hrest i (by omega), List.getElem?_take_of_lt hi, List.getD_eq_getElem?_getD,
                    List.getElem?_eq_getElem (by omega)]
                  rfl
                rw [hbyte]
                match i, hi with
                | 0, _ => exact congrArg some h4
                | 1, _ => exact congrArg some h5
                | 2, _ => exact congrArg some h6
                | 3, _ => exact congrArg some h7
                | 4, _ => exact congrArg some h8
                | 5, _ => exact congrArg some h9
                | 6, _ => exact congrArg some h10
                | 7, _ => exact congrArg some h11
              · rw [List.getElem?_eq_none (by rw [List.length_take]; omega),
                  List.getElem?_eq_none (by show 8 ≤ i; omega)]
            · rw [List.length_take, Nat.min_eq_left (by omega), height]
              rfl
      · rw [if_pos height] at hnone
        cases hnone
  · rintro ⟨descriptor, tail, rfl | rfl, hdescriptor, htail⟩
    · rw [if_pos (show size = 0 from hdescriptor)]
    · have hsize8 : size = 8 := hdescriptor
      have hlong : 8 ≤ rest.length := by
        rw [htail, List.length_append]
        exact Nat.le_add_right 8 _
      have hfield : ∀ i < 8, memory (4 + i) = blockDescriptor.getD i 0 := by
        intro i hi
        rw [hrest i (by omega), htail, List.getD_append _ _ _ _ hi]
      rw [if_neg (by rw [hsize8]; decide), if_neg (by rw [hsize8]; decide), if_neg (by omega),
        if_neg]
      rw [show memory 4 = 0 from hfield 0 (by omega), show memory 5 = 0 from hfield 1 (by omega),
        show memory 6 = 0 from hfield 2 (by omega), show memory 7 = 0 from hfield 3 (by omega),
        show memory 8 = 0 from hfield 4 (by omega), show memory 9 = 0 from hfield 5 (by omega),
        show memory 10 = 2 from hfield 6 (by omega), show memory 11 = 0 from hfield 7 (by omega)]
      decide

/-- The CDB has its page format bit set, and not the one to save pages. -/
def selectFlags (scb : Scb) : Bool := scb.cmd 1 &&& 0x10 != 0 && scb.cmd 1 &&& 0x01 != 1

/-- The part of the parser behind the block descriptor. -/
def parsePages (memory : ℕ → UInt8) (length start : ℕ) : Except ModeSelectError (Option ℕ) :=
  if length = start then .ok none
  else
    match modePages memory length length start 0 with
    | .error error => .error error
    | .ok (offset, cachePageOffset) =>
      if length ≠ offset then .error .parameterListLength
      else if cachePageOffset = 0 then .ok none
      else .ok (some cachePageOffset)

/-- What is behind the block descriptor is accepted only if it is a sequence of pages. -/
theorem pages_of_parsePages {start : ℕ} (hmemory : ∀ i < bytes.length, memory i = bytes.getD i 0)
    (hpos : 0 < start) (hstart : start ≤ bytes.length)
    (hok : parsePages memory bytes.length start = .ok position) :
    ∃ (pages : List (List UInt8)) (cache : ℕ), (∀ page ∈ pages, PageFrame page) ∧
      bytes.drop start = pages.flatten ∧ LastAt bytes pages 0 cache ∧
      position = if cache = 0 then none else some cache := by
  unfold parsePages at hok
  by_cases hend : bytes.length = start
  · rw [if_pos hend] at hok
    cases hok
    exact ⟨[], 0, by simp, by simp [← hend], .none rfl rfl, rfl⟩
  · rw [if_neg hend] at hok
    cases hparse : modePages memory bytes.length bytes.length start 0 with
    | error error =>
      rw [hparse] at hok
      cases hok
    | ok result =>
      obtain ⟨offset, cache⟩ := result
      rw [hparse] at hok
      dsimp only at hok
      by_cases hoffset : bytes.length = offset
      · subst hoffset
        obtain ⟨pages, hflatten, hframes, hlast⟩ :=
          pages_of_modePages hmemory (by omega) hpos hstart hparse
        refine ⟨pages, cache, hframes, hflatten, hlast, ?_⟩
        rw [if_neg (by simp)] at hok
        by_cases hzero : cache = 0
        · rw [if_pos hzero] at hok ⊢
          exact (Except.ok.inj hok).symm
        · rw [if_neg hzero] at hok ⊢
          exact (Except.ok.inj hok).symm
      · rw [if_pos hoffset] at hok
        cases hok

/-- A sequence of pages is accepted. -/
theorem parsePages_of_pages {start : ℕ} {pages : List (List UInt8)}
    (hmemory : ∀ i < bytes.length, memory i = bytes.getD i 0) (hpos : 0 < start)
    (hstart : start ≤ bytes.length) (hframes : ∀ page ∈ pages, PageFrame page)
    (hflatten : bytes.drop start = pages.flatten) :
    ∃ cache, LastAt bytes pages 0 cache ∧
      parsePages memory bytes.length start = .ok (if cache = 0 then none else some cache) := by
  obtain ⟨cache, hparse, hlast⟩ := @modePages_of_pages memory bytes pages bytes.length start 0
    hmemory hframes (by omega) hpos hstart hflatten
  refine ⟨cache, hlast, ?_⟩
  unfold parsePages
  by_cases hend : bytes.length = start
  · have hzero : cache = 0 := by
      rw [modePages_end (by omega)] at hparse
      exact (Prod.mk.inj (Except.ok.inj hparse)).2.symm
    rw [if_pos hend, if_pos hzero]
  · rw [if_neg hend, hparse]
    dsimp only
    rw [if_neg (by simp)]
    split <;> rfl

/-- The tests of the CDB and of the header. -/
theorem modeParameterList_eq (hflags : selectFlags scb = true)
    (hlength : 4 ≤ scb.dataBufferLength.toNat)
    (hheader : fieldsAllowed (fun i => scb.pDataBuffer.getD i 0) headerFields = true) :
    modeParameterList scb =
      match blockDescriptorError (fun i => scb.pDataBuffer.getD i 0)
          scb.dataBufferLength.toNat with
      | some error => .error error
      | none =>
        parsePages (fun i => scb.pDataBuffer.getD i 0) scb.dataBufferLength.toNat
          (4 + (scb.pDataBuffer.getD 3 0).toNat) := by
  simp only [selectFlags, Bool.and_eq_true, bne_iff_ne] at hflags
  simp only [fieldsAllowed, headerFields, List.all_cons, List.all_nil, Bool.and_true,
    Bool.and_eq_true, beq_iff_eq] at hheader
  unfold modeParameterList
  dsimp only
  rw [if_neg hflags.1, if_neg hflags.2, if_neg (by omega), if_neg (by omega), if_neg (by
    simp only [hheader]
    simp)]
  rfl

/-- What is refused before the header has been read. -/
theorem modeParameterList_refused (hlength : scb.dataBufferLength.toNat ≠ 0)
    (hrefused : ¬ (selectFlags scb = true ∧ 4 ≤ scb.dataBufferLength.toNat ∧
      fieldsAllowed (fun i => scb.pDataBuffer.getD i 0) headerFields = true)) :
    ∃ error, modeParameterList scb = .error error := by
  unfold modeParameterList
  dsimp only
  by_cases hformat : scb.cmd 1 &&& 0x10 = 0
  · exact ⟨_, by rw [if_pos hformat]⟩
  by_cases hsave : scb.cmd 1 &&& 0x01 = 1
  · exact ⟨_, by rw [if_neg hformat, if_pos hsave]⟩
  by_cases hshort : scb.dataBufferLength.toNat < 4
  · exact ⟨_, by rw [if_neg hformat, if_neg hsave, if_neg hlength, if_pos hshort]⟩
  have hflags : selectFlags scb = true := by
    simp [selectFlags, hformat, hsave]
  have hheader : scb.pDataBuffer.getD 0 0 ≠ 0 ∨ scb.pDataBuffer.getD 1 0 ≠ 0 ∨
      scb.pDataBuffer.getD 2 0 ≠ 0 := by
    by_contra hnone
    refine hrefused ⟨hflags, by omega, ?_⟩
    simp only [not_or, ne_eq, Decidable.not_not] at hnone
    simp only [fieldsAllowed, headerFields, List.all_cons, List.all_nil, hnone]
    rfl
  exact ⟨_, by rw [if_neg hformat, if_neg hsave, if_neg hlength, if_neg hshort, if_pos hheader]⟩

/-- The bytes of the list are the first ones in memory. -/
theorem memory_eq (hbuffer : scb.pDataBuffer = bytes ++ behind) :
    ∀ i < bytes.length, (fun i => scb.pDataBuffer.getD i 0) i = bytes.getD i 0 := by
  intro i hi
  dsimp only
  rw [hbuffer, List.getD_append _ _ _ _ hi]

/-- A list that is not empty is accepted only if it has a header and pages. -/
theorem grammar_of_modeParameterList (hbuffer : scb.pDataBuffer = bytes ++ behind)
    (hlength : scb.dataBufferLength.toNat = bytes.length) (hne : bytes ≠ [])
    (hok : modeParameterList scb = .ok position) :
    selectFlags scb = true ∧
      ∃ (descriptor : List UInt8) (pages : List (List UInt8)) (cache : ℕ),
        (descriptor = [] ∨ descriptor = blockDescriptor) ∧ (∀ page ∈ pages, PageFrame page) ∧
        bytes = [0, 0, 0, UInt8.ofNat descriptor.length] ++ descriptor ++ pages.flatten ∧
        LastAt bytes pages 0 cache ∧ position = if cache = 0 then none else some cache := by
  have hmemory := memory_eq hbuffer
  have hpos : bytes.length ≠ 0 := fun hzero => hne (List.eq_nil_of_length_eq_zero hzero)
  have haccepted : selectFlags scb = true ∧ 4 ≤ scb.dataBufferLength.toNat ∧
      fieldsAllowed (fun i => scb.pDataBuffer.getD i 0) headerFields = true := by
    by_contra hrefused
    obtain ⟨error, herror⟩ := modeParameterList_refused (by omega) hrefused
    rw [hok] at herror
    cases herror
  obtain ⟨hflags, hfour, hheader⟩ := haccepted
  rw [modeParameterList_eq hflags hfour hheader, hlength] at hok
  simp only [fieldsAllowed, headerFields, List.all_cons, List.all_nil, Bool.and_true,
    Bool.and_eq_true, beq_iff_eq] at hheader
  obtain ⟨h0, h1, h2⟩ := hheader
  obtain ⟨size, rest, hbytes⟩ : ∃ size rest, bytes = [0, 0, 0, size] ++ rest := by
    rw [hlength] at hfour
    match bytes, hfour with
    | first :: second :: third :: size :: rest, _ =>
      rw [hbuffer] at h0 h1 h2
      refine ⟨size, rest, ?_⟩
      rw [show first = 0 from h0, show second = 0 from h1, show third = 0 from h2]
      rfl
  have hsize : scb.pDataBuffer.getD 3 0 = size := by
    rw [hbuffer, hbytes]
    rfl
  cases herror : blockDescriptorError (fun i => scb.pDataBuffer.getD i 0) bytes.length with
  | some error =>
    rw [herror] at hok
    cases hok
  | none =>
    obtain ⟨descriptor, tail, hdescriptor, hdescriptorSize, htail⟩ :=
      (blockDescriptorError_eq_none hmemory hbytes).1 herror
    have hstart : 4 + size.toNat = 4 + descriptor.length := by
      rcases hdescriptor with rfl | rfl <;> rw [hdescriptorSize] <;> rfl
    have hdrop : bytes.drop (4 + descriptor.length) = tail := by
      rw [hbytes, htail, ← List.append_assoc]
      exact List.drop_left' (by rw [List.length_append]; rfl)
    have hle : 4 + descriptor.length ≤ bytes.length := by
      rw [hbytes, htail, List.length_append, List.length_append]
      simp only [List.length_cons, List.length_nil]
      omega
    rw [herror, hsize, hstart] at hok
    obtain ⟨pages, cache, hframes, hflatten, hlast, hposition⟩ :=
      pages_of_parsePages hmemory (by omega) hle hok
    refine ⟨hflags, descriptor, pages, cache, hdescriptor, hframes, ?_, hlast, hposition⟩
    rw [hbytes, htail, ← hdescriptorSize, ← hflatten, hdrop, List.append_assoc]

/-- A list with a header and pages is accepted. -/
theorem modeParameterList_of_grammar {descriptor : List UInt8} {pages : List (List UInt8)}
    (hbuffer : scb.pDataBuffer = bytes ++ behind)
    (hlength : scb.dataBufferLength.toNat = bytes.length) (hflags : selectFlags scb = true)
    (hdescriptor : descriptor = [] ∨ descriptor = blockDescriptor)
    (hframes : ∀ page ∈ pages, PageFrame page)
    (hbytes : bytes = [0, 0, 0, UInt8.ofNat descriptor.length] ++ descriptor ++ pages.flatten) :
    ∃ cache, LastAt bytes pages 0 cache ∧
      modeParameterList scb = .ok (if cache = 0 then none else some cache) := by
  have hmemory := memory_eq hbuffer
  have hlong : bytes.length = 4 + descriptor.length + pages.flatten.length := by
    rw [hbytes, List.length_append, List.length_append]
    rfl
  have hheader : fieldsAllowed (fun i => scb.pDataBuffer.getD i 0) headerFields = true := by
    rw [hbuffer, hbytes]
    rfl
  have hsize : scb.pDataBuffer.getD 3 0 = UInt8.ofNat descriptor.length := by
    rw [hbuffer, hbytes]
    rfl
  have hstart : 4 + (UInt8.ofNat descriptor.length).toNat = 4 + descriptor.length := by
    rcases hdescriptor with rfl | rfl <;> rfl
  have hnone : blockDescriptorError (fun i => scb.pDataBuffer.getD i 0) bytes.length = none :=
    (blockDescriptorError_eq_none hmemory (by rw [hbytes, List.append_assoc])).2
      ⟨descriptor, pages.flatten, hdescriptor, rfl, rfl⟩
  have hdrop : bytes.drop (4 + descriptor.length) = pages.flatten := by
    rw [hbytes]
    exact List.drop_left' (by rw [List.length_append]; rfl)
  obtain ⟨cache, hlast, hparse⟩ :=
    parsePages_of_pages hmemory (by omega) (by omega) hframes hdrop
  refine ⟨cache, hlast, ?_⟩
  rw [modeParameterList_eq hflags (by omega) hheader, hlength, hnone, hsize, hstart]
  exact hparse

/-- The empty list is accepted without a look at it. -/
theorem modeParameterList_empty (hlength : scb.dataBufferLength.toNat = 0)
    (hflags : selectFlags scb = true) : modeParameterList scb = .ok none := by
  simp only [selectFlags, Bool.and_eq_true, bne_iff_ne] at hflags
  unfold modeParameterList
  dsimp only
  rw [if_neg hflags.1, if_neg hflags.2, if_pos hlength]

/-- The flags of the CDB are looked at first. -/
theorem selectFlags_of_modeParameterList (hok : modeParameterList scb = .ok position) :
    selectFlags scb = true := by
  unfold modeParameterList at hok
  dsimp only at hok
  by_cases hformat : scb.cmd 1 &&& 0x10 = 0
  · rw [if_pos hformat] at hok
    cases hok
  by_cases hsave : scb.cmd 1 &&& 0x01 = 1
  · rw [if_neg hformat, if_pos hsave] at hok
    cases hok
  simp [selectFlags, hformat, hsave]

end List

/-- A control page that the list cuts off. -/
def CutControlPage (bytes : List UInt8) (offset : ℕ) : Prop :=
  bytes.getD offset 0 = 0x0a ∧ bytes.getD (offset + 1) 0 = 0x0a ∧ offset + 2 < bytes.length ∧
    bytes.length < offset + 12

/-- A byte that is read is in the list, or a field of a control page that the list cuts off. -/
def ReadsInside (bytes : List UInt8) (i : ℕ) : Prop :=
  i < bytes.length ∨ ∃ offset, CutControlPage bytes offset ∧ offset + 2 < i ∧ i < offset + 12

section Inside

variable {memory : ℕ → UInt8} {bytes behind : List UInt8} {fields : List (ℕ × (UInt8 → Bool))}
  {scb : Scb} {rounds offset i : ℕ}

/-- A comparison reads no other fields. -/
theorem mem_fieldReads (hmem : i ∈ fieldReads memory fields) : i ∈ fields.map Prod.fst := by
  induction fields with
  | nil => exact hmem
  | cons field fields ih =>
    rcases List.mem_cons.1 hmem with rfl | hmem
    · exact List.mem_cons_self
    · split at hmem
      · exact List.mem_cons_of_mem _ (ih hmem)
      · exact absurd hmem List.not_mem_nil

/-- The fields of a control page behind the first two are read only if these are right. -/
theorem controlFields_reads (hmem : i ∈ fieldReads memory (controlFields offset)) :
    offset ≤ i ∧ i < offset + 12 ∧
      (i < offset + 2 ∨ memory offset = 0x0a ∧ memory (offset + 1) = 0x0a) := by
  have hfields := mem_fieldReads hmem
  simp only [controlFields, List.map_cons, List.map_nil, List.mem_cons, List.not_mem_nil, or_false]
    at hfields
  refine ⟨by omega, by omega, ?_⟩
  unfold controlFields fieldReads at hmem
  rcases List.mem_cons.1 hmem with rfl | hmem
  · exact Or.inl (by omega)
  · by_cases hcode : memory offset = 0x0a
    · rw [if_pos (beq_iff_eq.2 hcode), fieldReads] at hmem
      rcases List.mem_cons.1 hmem with rfl | hmem
      · exact Or.inl (by omega)
      · by_cases hlength : memory (offset + 1) = 0x0a
        · exact Or.inr ⟨hcode, hlength⟩
        · rw [if_neg (by simpa using hlength)] at hmem
          exact absurd hmem List.not_mem_nil
    · rw [if_neg (by simpa using hcode)] at hmem
      exact absurd hmem List.not_mem_nil

/-- The loop over the pages reads inside the list, but for a control page that is cut off. -/
theorem pageReads_inside (hmemory : ∀ i < bytes.length, memory i = bytes.getD i 0)
    (hmem : i ∈ pageReads memory bytes.length rounds offset) : ReadsInside bytes i := by
  induction rounds generalizing offset with
  | zero => exact absurd hmem List.not_mem_nil
  | succ rounds ih =>
    rw [pageReads] at hmem
    by_cases hlt : offset + 2 < bytes.length
    · rw [if_pos hlt] at hmem
      rcases List.mem_cons.1 hmem with rfl | hmem
      · exact Or.inl (by omega)
      · split at hmem
        · rcases List.mem_cons.1 hmem with rfl | hmem
          · exact Or.inl (by omega)
          · split at hmem
            · exact absurd hmem List.not_mem_nil
            · exact ih hmem
        · split at hmem
          · rcases List.mem_append.1 hmem with hmem | hmem
            · obtain ⟨hle, hend, hcode⟩ := controlFields_reads hmem
              by_cases hinside : i < bytes.length
              · exact Or.inl hinside
              · have hfields := hcode.resolve_left (by omega)
                rw [hmemory _ (by omega), hmemory _ (by omega)] at hfields
                exact Or.inr ⟨offset, ⟨hfields.1, hfields.2, hlt, by omega⟩, by omega, hend⟩
            · split at hmem
              · exact ih hmem
              · exact absurd hmem List.not_mem_nil
          · exact absurd hmem List.not_mem_nil
    · rw [if_neg hlt] at hmem
      exact absurd hmem List.not_mem_nil

/-- The caching page that is parsed is in the list. -/
theorem cachingReads_inside (hend : offset + 20 ≤ bytes.length)
    (hmem : i ∈ cachingReads memory offset) : i < bytes.length := by
  unfold cachingReads at hmem
  rcases List.mem_append.1 hmem with hmem | hmem
  · have hfields := mem_fieldReads hmem
    simp only [cachingFields, List.map_cons, List.map_nil, List.mem_cons, List.not_mem_nil,
      or_false] at hfields
    omega
  · split at hmem
    · simp only [List.mem_cons, List.not_mem_nil, or_false] at hmem
      omega
    · exact absurd hmem List.not_mem_nil

/-- What is behind the block descriptor. -/
theorem modePagesReads_inside {start : ℕ}
    (hmemory : ∀ i < bytes.length, memory i = bytes.getD i 0) (hpos : 0 < start)
    (hstart : start ≤ bytes.length) (hmem : i ∈ modePagesReads memory bytes.length start) :
    ReadsInside bytes i := by
  unfold modePagesReads at hmem
  split at hmem
  · exact absurd hmem List.not_mem_nil
  · rcases List.mem_append.1 hmem with hmem | hmem
    · exact pageReads_inside hmemory hmem
    · cases hparse : modePages memory bytes.length bytes.length start 0 with
      | error error =>
        rw [hparse] at hmem
        exact absurd hmem List.not_mem_nil
      | ok result =>
        obtain ⟨offset, cache⟩ := result
        rw [hparse] at hmem
        dsimp only at hmem
        split at hmem
        · rename_i hfound
          obtain ⟨rfl, hcache⟩ := hfound
          obtain ⟨pages, -, -, hlast⟩ :=
            pages_of_modePages hmemory (by omega) hpos hstart hparse
          cases hlast with
          | none hnone hzero => exact absurd hzero hcache
          | some hpage hat hpos hend => exact Or.inl (cachingReads_inside hend hmem)
        · exact absurd hmem List.not_mem_nil

/-- `modeSelect` reads inside its list, but for a control page that is cut off. -/
theorem modeSelectReads_inside (hbuffer : scb.pDataBuffer = bytes ++ behind)
    (hlength : scb.dataBufferLength.toNat = bytes.length) (hmem : i ∈ modeSelectReads scb) :
    ReadsInside bytes i := by
  have hmemory := memory_eq hbuffer
  unfold modeSelectReads at hmem
  dsimp only at hmem
  rw [hlength] at hmem
  split at hmem
  · exact absurd hmem List.not_mem_nil
  · rename_i hshort
    have hfour : 4 ≤ bytes.length := by
      have := not_or.1 (not_or.1 hshort).2
      omega
    rcases List.mem_append.1 hmem with hmem | hmem
    · have hfields := mem_fieldReads hmem
      simp only [headerFields, List.map_cons, List.map_nil, List.mem_cons, List.not_mem_nil,
        or_false] at hfields
      exact Or.inl (by omega)
    · split at hmem
      · rcases List.mem_cons.1 hmem with rfl | hmem
        · exact Or.inl (by omega)
        · split at hmem
          · exact modePagesReads_inside hmemory (by omega) hfour hmem
          · split at hmem
            · exact absurd hmem List.not_mem_nil
            · rename_i hdescriptor
              have htwelve : 12 ≤ bytes.length := by
                have := (not_or.1 hdescriptor).2
                omega
              rcases List.mem_append.1 hmem with hmem | hmem
              · have hfields := mem_fieldReads hmem
                simp only [descriptorFields, List.map_cons, List.map_nil, List.mem_cons,
                  List.not_mem_nil, or_false] at hfields
                exact Or.inl (by omega)
              · split at hmem
                · exact modePagesReads_inside hmemory (by omega) htwelve hmem
                · exact absurd hmem List.not_mem_nil
      · exact absurd hmem List.not_mem_nil

end Inside

section Congruence

variable {memory memory' : ℕ → UInt8} {fields : List (ℕ × (UInt8 → Bool))}
  {length rounds offset cache : ℕ}

/-- A comparison has its result from the fields that it reads. -/
theorem fieldsAllowed_congr (hagree : ∀ i ∈ fieldReads memory fields, memory' i = memory i) :
    fieldsAllowed memory' fields = fieldsAllowed memory fields := by
  induction fields with
  | nil => rfl
  | cons field fields ih =>
    obtain ⟨i, allowed⟩ := field
    have hfield : memory' i = memory i := hagree i List.mem_cons_self
    simp only [fieldsAllowed, List.all_cons] at ih ⊢
    rw [hfield]
    cases hallowed : allowed (memory i) with
    | false => rfl
    | true =>
      rw [ih]
      intro j hmem
      refine hagree j (List.mem_cons_of_mem _ ?_)
      rw [if_pos hallowed]
      exact hmem

/-- The loop over the pages has its result from the bytes that it reads. -/
theorem modePages_congr
    (hagree : ∀ i ∈ pageReads memory length rounds offset, memory' i = memory i) :
    modePages memory' length rounds offset cache = modePages memory length rounds offset cache := by
  induction rounds generalizing offset cache with
  | zero => rfl
  | succ rounds ih =>
    by_cases hlt : offset + 2 < length
    · rw [pageReads, if_pos hlt] at hagree
      have hcode : memory' offset = memory offset := hagree offset List.mem_cons_self
      by_cases hcaching : memory offset &&& 0x3f = 0x08
      · rw [if_pos hcaching] at hagree
        have hlength : memory' (offset + 1) = memory (offset + 1) :=
          hagree _ (List.mem_cons_of_mem _ List.mem_cons_self)
        rw [modePages_caching hlt (by rw [hcode]; exact hcaching), modePages_caching hlt hcaching,
          hlength]
        by_cases hpage : memory (offset + 1) = 0x12
        · rw [if_pos hpage, if_pos hpage]
          refine ih fun i hmem => hagree i (List.mem_cons_of_mem _ (List.mem_cons_of_mem _ ?_))
          rw [if_neg (by simp [hpage]), hpage]
          exact hmem
        · rw [if_neg hpage, if_neg hpage]
      · rw [if_neg hcaching] at hagree
        by_cases hcontrol : memory offset &&& 0x3f = 0x0a
        · rw [if_pos hcontrol] at hagree
          rw [modePages_control hlt (by rw [hcode]; exact hcontrol), modePages_control hlt hcontrol,
            fieldsAllowed_congr fun i hmem =>
              hagree i (List.mem_cons_of_mem _ (List.mem_append_left _ hmem))]
          by_cases hfields : fieldsAllowed memory (controlFields offset) = true
          · rw [if_pos hfields, if_pos hfields]
            refine ih fun i hmem => hagree i (List.mem_cons_of_mem _ (List.mem_append_right _ ?_))
            have hlength : memory (offset + 1) = 0x0a :=
              Decidable.not_not.1 fun hne => controlFields_allowed.1 hfields (Or.inr (Or.inl hne))
            rw [if_pos hfields, hlength]
            exact hmem
          · rw [if_neg hfields, if_neg hfields]
        · rw [modePages_other hlt (by rw [hcode]; exact hcaching) (by rw [hcode]; exact hcontrol),
            modePages_other hlt hcaching hcontrol]
    · rw [modePages_end hlt, modePages_end hlt]

/-- What is behind the block descriptor. -/
theorem parsePages_congr {start : ℕ}
    (hagree : ∀ i ∈ modePagesReads memory length start, memory' i = memory i) :
    parsePages memory' length start = parsePages memory length start := by
  unfold parsePages
  unfold modePagesReads at hagree
  by_cases hend : length = start
  · rw [if_pos hend, if_pos hend]
  · rw [if_neg hend] at hagree
    rw [if_neg hend, if_neg hend,
      modePages_congr fun i hmem => hagree i (List.mem_append_left _ hmem)]

/-- The fields of the block descriptor are as they are compared. -/
theorem blockDescriptorError_eq (memory : ℕ → UInt8) (length : ℕ) :
    blockDescriptorError memory length =
      if memory 3 = 0 then none
      else if memory 3 ≠ 8 then some .invalidFieldInList
      else if length < 12 then some .parameterListLength
      else if fieldsAllowed memory descriptorFields then none
      else some .invalidFieldInList := by
  have hfields : fieldsAllowed memory descriptorFields = true ↔
      ¬ (memory 4 ≠ 0 ∨ memory 5 ≠ 0 ∨ memory 6 ≠ 0 ∨ memory 7 ≠ 0 ∨ memory 8 ≠ 0 ∨
        memory 9 ≠ 0 ∨ memory 10 ≠ 2 ∨ memory 11 ≠ 0) := by
    simp only [fieldsAllowed, descriptorFields, List.all_cons, List.all_nil, Bool.and_true,
      Bool.and_eq_true, beq_iff_eq, not_or, ne_eq, Decidable.not_not]
  unfold blockDescriptorError
  by_cases hallowed : fieldsAllowed memory descriptorFields = true
  · rw [if_pos hallowed, if_neg (hfields.1 hallowed)]
  · rw [if_neg hallowed, if_pos (Decidable.not_not.1 fun h => hallowed (hfields.2 h))]

end Congruence

/-- The parser behind the header. -/
def parseBlocks (memory : ℕ → UInt8) (length : ℕ) : Except ModeSelectError (Option ℕ) :=
  if memory 3 = 0 then parsePages memory length 4
  else if memory 3 ≠ 8 then .error .invalidFieldInList
  else if length < 12 then .error .parameterListLength
  else if fieldsAllowed memory descriptorFields then parsePages memory length 12
  else .error .invalidFieldInList

/-- The parser in the order of its reads. -/
theorem modeParameterList_reads (scb : Scb) (hformat : scb.cmd 1 &&& 0x10 ≠ 0)
    (hsave : scb.cmd 1 &&& 0x01 ≠ 1) (hlength : ¬ scb.dataBufferLength.toNat < 4) :
    modeParameterList scb =
      if fieldsAllowed (fun i => scb.pDataBuffer.getD i 0) headerFields then
        parseBlocks (fun i => scb.pDataBuffer.getD i 0) scb.dataBufferLength.toNat
      else .error .invalidFieldInList := by
  have hflags : selectFlags scb = true := by simp [selectFlags, hformat, hsave]
  by_cases hheader : fieldsAllowed (fun i => scb.pDataBuffer.getD i 0) headerFields = true
  · rw [if_pos hheader, modeParameterList_eq hflags (by omega) hheader, blockDescriptorError_eq]
    unfold parseBlocks
    dsimp only
    by_cases hnone : scb.pDataBuffer.getD 3 0 = 0
    · rw [if_pos hnone, if_pos hnone, hnone]
      rfl
    · rw [if_neg hnone, if_neg hnone]
      by_cases height : scb.pDataBuffer.getD 3 0 ≠ 8
      · rw [if_pos height, if_pos height]
      · rw [if_neg height, if_neg height]
        by_cases hshort : scb.dataBufferLength.toNat < 12
        · rw [if_pos hshort, if_pos hshort]
        · rw [if_neg hshort, if_neg hshort, Decidable.not_not.1 height]
          by_cases hfields :
              fieldsAllowed (fun i => scb.pDataBuffer.getD i 0) descriptorFields = true
          · rw [if_pos hfields, if_pos hfields]
            rfl
          · rw [if_neg hfields, if_neg hfields]
  · rw [if_neg hheader]
    have hinvalid : scb.pDataBuffer.getD 0 0 ≠ 0 ∨ scb.pDataBuffer.getD 1 0 ≠ 0 ∨
        scb.pDataBuffer.getD 2 0 ≠ 0 := by
      by_contra hvalid
      simp only [not_or, ne_eq, Decidable.not_not] at hvalid
      refine hheader ?_
      simp only [fieldsAllowed, headerFields, List.all_cons, List.all_nil, hvalid]
      rfl
    unfold modeParameterList
    dsimp only
    rw [if_neg hformat, if_neg hsave, if_neg (by omega), if_neg hlength, if_pos hinvalid]

/-- What is behind the header. -/
theorem parseBlocks_congr {memory memory' : ℕ → UInt8} {length : ℕ} (hthree : memory' 3 = memory 3)
    (hagree : ∀ i ∈ (if memory 3 = 0 then modePagesReads memory length 4
      else if memory 3 ≠ 8 ∨ length < 12 then []
      else
        fieldReads memory descriptorFields ++
          if fieldsAllowed memory descriptorFields then modePagesReads memory length 12 else []),
      memory' i = memory i) :
    parseBlocks memory' length = parseBlocks memory length := by
  unfold parseBlocks
  rw [hthree]
  by_cases hnone : memory 3 = 0
  · rw [if_pos hnone] at hagree
    rw [if_pos hnone, if_pos hnone, parsePages_congr hagree]
  · rw [if_neg hnone] at hagree
    rw [if_neg hnone, if_neg hnone]
    by_cases height : memory 3 ≠ 8
    · rw [if_pos height, if_pos height]
    · by_cases hlong : length < 12
      · rw [if_neg height, if_neg height, if_pos hlong, if_pos hlong]
      · rw [if_neg (not_or.2 ⟨height, hlong⟩)] at hagree
        rw [if_neg height, if_neg height, if_neg hlong, if_neg hlong,
          fieldsAllowed_congr fun i hmem => hagree i (List.mem_append_left _ hmem)]
        by_cases hfields : fieldsAllowed memory descriptorFields = true
        · rw [if_pos hfields] at hagree
          rw [if_pos hfields, if_pos hfields,
            parsePages_congr fun i hmem => hagree i (List.mem_append_right _ hmem)]
        · rw [if_neg hfields, if_neg hfields]

/-- The list of reads is complete: the outcome of the parser depends on no other byte. -/
theorem modeParameterList_congr {scb : Scb} {memory : List UInt8}
    (hagree : ∀ i ∈ modeSelectReads scb, memory.getD i 0 = scb.pDataBuffer.getD i 0) :
    modeParameterList { scb with pDataBuffer := memory } = modeParameterList scb := by
  by_cases hformat : scb.cmd 1 &&& 0x10 = 0
  · rw [modeParameterList, modeParameterList, if_pos hformat, if_pos (by exact hformat)]
  by_cases hsave : scb.cmd 1 &&& 0x01 = 1
  · rw [modeParameterList, modeParameterList, if_neg hformat, if_neg (by exact hformat),
      if_pos hsave, if_pos (by exact hsave)]
  by_cases hshort : scb.dataBufferLength.toNat < 4
  · rw [modeParameterList, modeParameterList, if_neg hformat, if_neg (by exact hformat),
      if_neg hsave, if_neg (by exact hsave)]
    dsimp only
    by_cases hzero : scb.dataBufferLength.toNat = 0
    · rw [if_pos hzero, if_pos hzero]
    · rw [if_neg hzero, if_neg hzero, if_pos hshort, if_pos hshort]
  rw [modeParameterList_reads scb hformat hsave hshort,
    modeParameterList_reads { scb with pDataBuffer := memory } hformat hsave hshort]
  unfold modeSelectReads at hagree
  dsimp only at hagree ⊢
  rw [if_neg (by simp [hformat, hsave, hshort])] at hagree
  generalize scb.dataBufferLength.toNat = length at hagree ⊢
  have hheader : fieldsAllowed (fun i => memory.getD i 0) headerFields =
      fieldsAllowed (fun i => scb.pDataBuffer.getD i 0) headerFields :=
    fieldsAllowed_congr fun i hmem => hagree i (List.mem_append_left _ hmem)
  rw [hheader]
  by_cases hvalid : fieldsAllowed (fun i => scb.pDataBuffer.getD i 0) headerFields = true
  · rw [if_pos hvalid, if_pos hvalid]
    rw [if_pos hvalid] at hagree
    have hthree : memory.getD 3 0 = scb.pDataBuffer.getD 3 0 :=
      hagree 3 (List.mem_append_right _ List.mem_cons_self)
    exact parseBlocks_congr hthree fun i hmem =>
      hagree i (List.mem_append_right _ (List.mem_cons_of_mem _ hmem))
  · rw [if_neg hvalid, if_neg hvalid]

end Mv88fxx81.Sata
