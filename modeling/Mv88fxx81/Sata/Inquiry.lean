import Mv88fxx81.Sata.ScsiAta

/-!
# Vendor and product

The data of the answer to an INQUIRY. The names of the vendor and of the product are cut out of the
model string of the drive: the first word is the vendor, the rest the product. The rest is copied
to its local array in full, and the array has room for seventeen characters only.
-/

namespace Mv88fxx81.Sata

/-- The strings of the identify data, as the drive sends them: in words, with the two characters of
each exchanged. -/
structure IdentifyStrings where
  model : List UInt8
  firmware : List UInt8
  model_length : model.length = 40
  firmware_length : firmware.length = 8

/-- `mvAta2HostString`. -/
def mvAta2HostString : List UInt8 → List UInt8
  | first :: second :: rest => second :: first :: mvAta2HostString rest
  | rest => rest

/-- The arrays `Vendor` and `Product` of `mvScsiAtaGetInquiryData`, with what the stack held. -/
structure InquiryLocals where
  vendor : List UInt8
  product : List UInt8
  vendor_length : vendor.length = 9
  product_length : product.length = 17

/-- Characters as bytes. -/
def ascii (characters : List Char) : List UInt8 := characters.map Char.toUInt8

/-- The space character. -/
def blank : UInt8 := 0x20

/-- Bytes are stored in an array from an offset on. If they go beyond its end, then so does the
list of its bytes. -/
def putBytes (array : List UInt8) (offset : ℕ) (bytes : List UInt8) : List UInt8 :=
  array.take offset ++ bytes ++ array.drop (offset + bytes.length)

section Source

/-- The vendor of a model string that does not begin with its name. -/
def vendorOfStart (temp : List UInt8) : List UInt8 :=
  let start := temp.take 2
  if start = ascii ['I', 'C'] ∨ start = ascii ['H', 'T'] ∨ start = ascii ['H', 'D'] ∨
      start = ascii ['D', 'K'] then
    ascii ['H', 'i', 't', 'a', 'c', 'h', 'i', ' ']
  else if start = ascii ['S', 'T'] then ascii ['S', 'e', 'a', 'g', 'a', 't', 'e', ' ']
  else ascii ['A', 'T', 'A', ' ', ' ', ' ', ' ', ' ']

/-- The first loop over `temp`: the index of a blank among the first nine characters, nine if there
is none. -/
def blankIndex (temp : List UInt8) : ℕ := (temp.take 9).findIdx (· == blank)

/-- The last loop over `temp`: the index of the next character that is not blank. -/
def productIndex (temp : List UInt8) (i : ℕ) : ℕ := i + (temp.drop i).findIdx (· != blank)

/-- What `mvScsiAtaGetInquiryData` stores in `Vendor` and `Product`. -/
def splitModel (locals : InquiryLocals) (temp : List UInt8) : List UInt8 × List UInt8 :=
  let i := blankIndex temp
  if i = 9 then
    (putBytes locals.vendor 0 (vendorOfStart temp ++ [0]),
      putBytes (putBytes locals.product 0 (temp.take 16)) 16 [0])
  else
    (putBytes (putBytes (putBytes locals.vendor 0 (temp.take i)) i (List.replicate (9 - i) blank))
        8 [0],
      putBytes (putBytes locals.product 0 (temp.drop (productIndex temp i))) 16 [0])

/-- The array `temp` of `mvScsiAtaGetInquiryData`. `mvParseIdentifyResult` keeps only the first 24
characters of the model string. -/
def IdentifyStrings.temp (strings : IdentifyStrings) : List UInt8 :=
  mvAta2HostString (strings.model.take 24)

/-- The array `buff` of `mvScsiAtaGetInquiryData`. -/
def inquiryBuffer (strings : IdentifyStrings) (locals : InquiryLocals) (lun : UInt8) :
    List UInt8 :=
  if lun ≠ 0 then 0x7f :: List.replicate 41 0
  else
    let names := splitModel locals strings.temp
    [0, 0, 3, 2, 38, 0, 0, 2] ++ names.1.take 8 ++ names.2.take 16 ++
      mvAta2HostString (strings.firmware.take 4) ++ ascii ['M', 'V', 'S', 'A', 'T', 'A']

end Source

/-- The model string as text. -/
def IdentifyStrings.text (strings : IdentifyStrings) : List UInt8 := mvAta2HostString strings.model

/-- A text that names its vendor: a blank ends a word of at most eight characters. -/
def namesVendor (text : List UInt8) : Bool := (text.take 9).contains blank

/-- The vendor word of a model string. -/
def vendorWord (text : List UInt8) : List UInt8 :=
  if namesVendor text then text.takeWhile (· != blank) else vendorOfStart text

/-- What a model string has behind the vendor word. -/
def modelRemainder (text : List UInt8) : List UInt8 :=
  if namesVendor text then (text.dropWhile (· != blank)).dropWhile (· == blank) else text

/-- A field with the leading characters of a text, padded with blanks. -/
def blankPadded (width : ℕ) (text : List UInt8) : List UInt8 :=
  (text ++ List.replicate width blank).take width

/-- The model string is split as it should be: the stores are inside the two arrays, these are
terminated, and the fields of the data have the vendor word and what follows it. -/
structure SplitsWell (strings : IdentifyStrings) (locals : InquiryLocals) : Prop where
  vendor_inside : (splitModel locals strings.temp).1.length = 9
  product_inside : (splitModel locals strings.temp).2.length = 17
  vendor_terminated : (splitModel locals strings.temp).1[8]? = some 0
  product_terminated : (splitModel locals strings.temp).2[16]? = some 0
  vendor_field : ((inquiryBuffer strings locals 0).drop 8).take 8 =
    blankPadded 8 (vendorWord strings.text)
  product_field : ((inquiryBuffer strings locals 0).drop 16).take 16 =
    blankPadded 16 (modelRemainder strings.text)

/-- The model string does not name its vendor, or the vendor word and the blanks behind it are
seven or eight characters. -/
def ProductFits (text : List UInt8) : Prop :=
  namesVendor text = true →
    text.length = 7 + (modelRemainder text).length ∨ text.length = 8 + (modelRemainder text).length

section Strings

@[simp] theorem mvAta2HostString_length (bytes : List UInt8) :
    (mvAta2HostString bytes).length = bytes.length := by
  fun_induction mvAta2HostString bytes with
  | case1 first second rest ih => simp [ih]
  | case2 rest => rfl

/-- The characters of the first words are those of the first half of the text. -/
theorem mvAta2HostString_take (bytes : List UInt8) (words : ℕ) :
    mvAta2HostString (bytes.take (2 * words)) = (mvAta2HostString bytes).take (2 * words) := by
  induction words generalizing bytes with
  | zero => simp [mvAta2HostString]
  | succ words ih =>
    rw [show 2 * (words + 1) = 2 * words + 1 + 1 by omega]
    match bytes with
    | [] => rfl
    | [byte] => rfl
    | first :: second :: rest => simp [mvAta2HostString, ih]

variable {strings : IdentifyStrings}

theorem IdentifyStrings.text_length (strings : IdentifyStrings) : strings.text.length = 40 := by
  rw [IdentifyStrings.text, mvAta2HostString_length, strings.model_length]

theorem IdentifyStrings.temp_eq (strings : IdentifyStrings) :
    strings.temp = strings.text.take 24 :=
  mvAta2HostString_take strings.model 12

theorem IdentifyStrings.temp_length (strings : IdentifyStrings) : strings.temp.length = 24 := by
  rw [strings.temp_eq, List.length_take, strings.text_length]
  rfl

end Strings

section Arrays

variable {array bytes : List UInt8} {offset : ℕ}

theorem length_putBytes (hoffset : offset ≤ array.length) :
    (putBytes array offset bytes).length = max array.length (offset + bytes.length) := by
  simp only [putBytes, List.length_append, List.length_take, List.length_drop]
  omega

/-- A store keeps what is in front of it. -/
theorem take_putBytes (hoffset : offset ≤ array.length) :
    (putBytes array offset bytes).take offset = array.take offset := by
  have hlength : (array.take offset).length = offset := by
    rw [List.length_take]
    omega
  rw [putBytes, List.append_assoc, List.take_left' hlength]

/-- The first byte of a store. -/
theorem getElem?_putBytes {byte : UInt8} (hoffset : offset ≤ array.length) :
    (putBytes array offset (byte :: bytes))[offset]? = some byte := by
  have hlength : (array.take offset).length = offset := by
    rw [List.length_take]
    omega
  rw [putBytes, List.append_assoc, List.getElem?_append_right (by omega), hlength, Nat.sub_self]
  rfl

/-- A field that its text fills. -/
theorem blankPadded_eq_take {width : ℕ} {text : List UInt8} (hwidth : width ≤ text.length) :
    blankPadded width text = text.take width := by
  rw [blankPadded, List.take_append_of_le_length hwidth]

end Arrays

section Fields

variable {strings : IdentifyStrings} {locals : InquiryLocals}

/-- The vendor field of the data. -/
theorem inquiryBuffer_vendor (hvendor : 8 ≤ (splitModel locals strings.temp).1.length) :
    ((inquiryBuffer strings locals 0).drop 8).take 8 =
      (splitModel locals strings.temp).1.take 8 := by
  unfold inquiryBuffer
  rw [if_neg (by simp)]
  simp only [List.append_assoc]
  rw [List.drop_left' (by rfl), List.take_left' (by rw [List.length_take]; omega)]

/-- The product field of the data. -/
theorem inquiryBuffer_product (hvendor : 8 ≤ (splitModel locals strings.temp).1.length)
    (hproduct : 16 ≤ (splitModel locals strings.temp).2.length) :
    ((inquiryBuffer strings locals 0).drop 16).take 16 =
      (splitModel locals strings.temp).2.take 16 := by
  have hlength : ([0, 0, 3, 2, 38, 0, 0, 2] ++
      (splitModel locals strings.temp).1.take 8).length = 16 := by
    rw [List.length_append, List.length_take]
    simp
    omega
  unfold inquiryBuffer
  rw [if_neg (by simp)]
  dsimp only
  rw [List.append_assoc, List.append_assoc, List.drop_left' hlength,
    List.take_left' (by rw [List.length_take]; omega)]

end Fields

section Split

variable {strings : IdentifyStrings} {locals : InquiryLocals}

/-- The first loop finds no blank where the text does not name a vendor. -/
theorem blankIndex_eq_nine (hnames : namesVendor strings.text = false) :
    blankIndex strings.temp = 9 := by
  have hlength := strings.text_length
  have htake : strings.temp.take 9 = strings.text.take 9 := by
    rw [strings.temp_eq, List.take_take]
    rfl
  have hnone : ∀ byte ∈ strings.text.take 9, (byte == blank) = false := by
    intro byte hmem
    rw [beq_eq_false_iff_ne]
    rintro rfl
    rw [namesVendor, List.contains_eq_mem, decide_eq_false_iff_not] at hnames
    exact hnames hmem
  rw [blankIndex, htake, List.findIdx_eq_length_of_false hnone, List.length_take, hlength]
  rfl

/-- Where the text names a vendor, the loop finds the end of the vendor word. -/
theorem blankIndex_of_namesVendor (hnames : namesVendor strings.text = true) :
    blankIndex strings.temp = strings.text.findIdx (· == blank) ∧ blankIndex strings.temp < 9 := by
  have hlength := strings.text_length
  have hmem : blank ∈ strings.text.take 9 := by
    rw [namesVendor, List.contains_eq_mem, decide_eq_true_eq] at hnames
    exact hnames
  have hlt : (strings.text.take 9).findIdx (· == blank) < (strings.text.take 9).length :=
    List.findIdx_lt_length_of_exists ⟨blank, hmem, beq_self_eq_true blank⟩
  rw [List.findIdx_take, List.length_take, hlength] at hlt
  rw [blankIndex, strings.temp_eq, List.take_take, List.findIdx_take]
  omega

/-- The vendor word is what stands in front of the blank. -/
theorem vendorWord_eq (hnames : namesVendor strings.text = true) :
    vendorWord strings.text = strings.temp.take (blankIndex strings.temp) := by
  obtain ⟨hindex, hlt⟩ := blankIndex_of_namesVendor hnames
  have htake : ∀ i < 9, strings.temp.take i = strings.text.take i := by
    intro i hi
    rw [strings.temp_eq, List.take_take, Nat.min_eq_left (by omega)]
  rw [vendorWord, if_pos hnames, List.takeWhile_eq_take_findIdx_not, htake _ hlt, hindex]
  simp only [bne, Bool.not_not]

/-- The index of the first character behind the vendor word that is not blank. -/
def remainderIndex (text : List UInt8) : ℕ :=
  let i := text.findIdx (· == blank)
  i + (text.drop i).findIdx (· != blank)

theorem modelRemainder_eq (hnames : namesVendor strings.text = true) :
    modelRemainder strings.text = strings.text.drop (remainderIndex strings.text) := by
  have hword : strings.text.dropWhile (· != blank) =
      strings.text.drop (strings.text.findIdx (· == blank)) := by
    rw [List.dropWhile_eq_drop_findIdx_not]
    simp only [bne, Bool.not_not]
  rw [modelRemainder, if_pos hnames, hword, List.dropWhile_eq_drop_findIdx_not, List.drop_drop]
  rfl

theorem remainderIndex_le (text : List UInt8) : remainderIndex text ≤ text.length := by
  have hi : text.findIdx (· == blank) ≤ text.length := List.findIdx_le_length
  have hk : (text.drop (text.findIdx (· == blank))).findIdx (· != blank) ≤
      (text.drop (text.findIdx (· == blank))).length := List.findIdx_le_length
  rw [List.length_drop] at hk
  unfold remainderIndex
  dsimp only
  omega

/-- The last loop finds this character, if it is one of those that are kept. -/
theorem productIndex_eq (hnames : namesVendor strings.text = true) :
    productIndex strings.temp (blankIndex strings.temp) =
      min 24 (remainderIndex strings.text) := by
  obtain ⟨hindex, hlt⟩ := blankIndex_of_namesVendor hnames
  unfold productIndex remainderIndex
  dsimp only
  rw [← hindex, strings.temp_eq, List.drop_take, List.findIdx_take, ← strings.temp_eq]
  omega

/-- The model string fits just if what follows the vendor word starts at one of two places. -/
theorem productFits_iff (hnames : namesVendor strings.text = true) :
    ProductFits strings.text ↔
      remainderIndex strings.text = 7 ∨ remainderIndex strings.text = 8 := by
  have hlength := strings.text_length
  have hle := remainderIndex_le strings.text
  rw [ProductFits, modelRemainder_eq hnames, List.length_drop, hlength]
  constructor
  · intro h
    have := h hnames
    omega
  · intro h _
    omega

theorem vendorOfStart_length (text : List UInt8) : (vendorOfStart text).length = 8 := by
  unfold vendorOfStart
  dsimp only
  split
  · rfl
  · split <;> rfl

/-- The two arrays where the text does not name a vendor. -/
theorem splitModel_known (hnames : namesVendor strings.text = false) :
    splitModel locals strings.temp =
      (vendorWord strings.text ++ [0], strings.text.take 16 ++ [0]) := by
  have hvendor := locals.vendor_length
  have hproduct := locals.product_length
  have hstart : vendorOfStart strings.temp = vendorWord strings.text := by
    rw [vendorWord, hnames, strings.temp_eq, vendorOfStart, List.take_take]
    rfl
  have htake : strings.temp.take 16 = strings.text.take 16 := by
    rw [strings.temp_eq, List.take_take]
    rfl
  have hlength : (strings.text.take 16).length = 16 := by
    rw [List.length_take, strings.text_length]
    rfl
  have hword : (vendorWord strings.text).length = 8 := hstart ▸ vendorOfStart_length _
  unfold splitModel
  dsimp only
  rw [if_pos (blankIndex_eq_nine hnames), hstart, htake, Prod.mk.injEq]
  constructor
  · rw [putBytes, List.drop_eq_nil_of_le (by simp [hword, hvendor])]
    simp
  · simp only [putBytes, List.take_zero, List.nil_append, hlength, Nat.zero_add,
      List.take_left' hlength]
    rw [List.drop_eq_nil_of_le (by simp [hlength, hproduct])]
    simp

/-- The array `Vendor` where the text names a vendor: the word, padded with blanks. -/
theorem splitModel_vendor (hnames : namesVendor strings.text = true) :
    (splitModel locals strings.temp).1 = blankPadded 8 (vendorWord strings.text) ++ [0] := by
  have hvendor := locals.vendor_length
  obtain ⟨-, hlt⟩ := blankIndex_of_namesVendor hnames
  have hword := vendorWord_eq hnames
  have hlength : (strings.temp.take (blankIndex strings.temp)).length =
      blankIndex strings.temp := by
    rw [List.length_take, strings.temp_length]
    omega
  unfold splitModel
  dsimp only
  rw [if_neg (by omega), ← hword]
  rw [← hword] at hlength
  generalize blankIndex strings.temp = i at hlt hlength
  generalize vendorWord strings.text = word at hlength
  subst hlength
  have hfirst : putBytes locals.vendor 0 word = word ++ locals.vendor.drop word.length := by
    simp [putBytes]
  have hsecond : putBytes (word ++ locals.vendor.drop word.length) word.length
      (List.replicate (9 - word.length) blank) =
        word ++ List.replicate (9 - word.length) blank := by
    rw [putBytes, List.take_left, List.drop_eq_nil_of_le (by simp; omega), List.append_nil]
  rw [hfirst, hsecond, putBytes, List.drop_eq_nil_of_le (by simp; omega), List.append_nil,
    blankPadded, List.take_append, List.take_append, List.take_replicate, List.take_replicate,
    Nat.min_eq_left (by omega), Nat.min_eq_left (by omega)]

/-- The array `Product` where the text names a vendor: its characters from some place on, and
what the stack held behind them. -/
theorem splitModel_product (hnames : namesVendor strings.text = true) :
    (splitModel locals strings.temp).2 =
      putBytes (strings.temp.drop (min 24 (remainderIndex strings.text)) ++
        locals.product.drop (24 - remainderIndex strings.text)) 16 [0] := by
  obtain ⟨-, hlt⟩ := blankIndex_of_namesVendor hnames
  have hlength := strings.temp_length
  unfold splitModel
  dsimp only
  rw [if_neg (by omega), productIndex_eq hnames]
  show putBytes (putBytes locals.product 0 _) 16 [0] = _
  congr 1
  rw [putBytes, List.take_zero, List.nil_append, List.length_drop, hlength]
  congr 2
  omega

/-- Nothing is stored behind `Product` just if the copy starts late enough. -/
theorem splitModel_product_length (hnames : namesVendor strings.text = true) :
    (splitModel locals strings.temp).2.length =
      max 17 (24 - remainderIndex strings.text) := by
  have hproduct := locals.product_length
  have hlength := strings.temp_length
  have hcopied : (strings.temp.drop (min 24 (remainderIndex strings.text)) ++
      locals.product.drop (24 - remainderIndex strings.text)).length =
        max 17 (24 - remainderIndex strings.text) := by
    rw [List.length_append, List.length_drop, List.length_drop, hproduct, hlength]
    omega
  rw [splitModel_product hnames, length_putBytes (by rw [hcopied]; omega), hcopied,
    List.length_singleton]
  omega

/-- The product field where the text names a vendor. -/
theorem splitModel_product_take (hnames : namesVendor strings.text = true) :
    (splitModel locals strings.temp).2.take 16 =
      (strings.temp.drop (min 24 (remainderIndex strings.text)) ++
        locals.product.drop (24 - remainderIndex strings.text)).take 16 := by
  have hproduct := locals.product_length
  have hlength := strings.temp_length
  rw [splitModel_product hnames, take_putBytes]
  rw [List.length_append, List.length_drop, List.length_drop, hproduct, hlength]
  omega

/-- A model string that does not name its vendor is split well. -/
theorem splitsWell_known (hnames : namesVendor strings.text = false) :
    SplitsWell strings locals := by
  have hsplit : splitModel locals strings.temp =
      (vendorWord strings.text ++ [0], strings.text.take 16 ++ [0]) := splitModel_known hnames
  have hvendor : (vendorWord strings.text).length = 8 := by
    rw [vendorWord, hnames]
    exact vendorOfStart_length _
  have hproduct : (strings.text.take 16).length = 16 := by
    rw [List.length_take, strings.text_length]
    rfl
  have hremainder : modelRemainder strings.text = strings.text := by
    rw [modelRemainder, hnames]
    rfl
  refine ⟨?_, ?_, ?_, ?_, ?_, ?_⟩
  · simp [hsplit, hvendor]
  · simp [hsplit, hproduct]
  · rw [hsplit, List.getElem?_append_right (by omega), hvendor]
    rfl
  · rw [hsplit, List.getElem?_append_right (by omega), hproduct]
    rfl
  · rw [inquiryBuffer_vendor (by simp [hsplit, hvendor]), hsplit, List.take_left' hvendor,
      blankPadded_eq_take (by omega), ← hvendor, List.take_length]
  · rw [inquiryBuffer_product (by simp [hsplit, hvendor]) (by simp [hsplit, hproduct]), hsplit,
      List.take_left' hproduct, hremainder,
      blankPadded_eq_take (by rw [strings.text_length]; omega)]

/-- The array `Vendor` is always as it should be. -/
theorem splitModel_vendor_length (hnames : namesVendor strings.text = true) :
    (splitModel locals strings.temp).1.length = 9 := by
  rw [splitModel_vendor hnames, blankPadded]
  simp

/-- What follows the vendor word is kept up to the 24th character of the model string. -/
theorem splitModel_product_of_fits (hnames : namesVendor strings.text = true)
    (hfits : remainderIndex strings.text = 7 ∨ remainderIndex strings.text = 8) :
    (splitModel locals strings.temp).2.take 16 = blankPadded 16 (modelRemainder strings.text) := by
  have htext := strings.text_length
  have hlength := strings.temp_length
  have htemp := strings.temp_eq
  rw [splitModel_product_take hnames, modelRemainder_eq hnames]
  generalize remainderIndex strings.text = start at hfits ⊢
  rw [blankPadded_eq_take (by rw [List.length_drop]; omega), Nat.min_eq_right (by omega),
    List.take_append_of_le_length (by rw [List.length_drop]; omega), htemp, List.drop_take,
    List.take_take, Nat.min_eq_left (by omega)]

/-- Where too few characters are copied, the field ends with what the stack held. -/
theorem splitModel_product_of_late (hnames : namesVendor strings.text = true)
    (hlate : 8 < remainderIndex strings.text) :
    ((splitModel locals strings.temp).2.take 16)[15]? = locals.product[15]? := by
  have hlength := strings.temp_length
  rw [splitModel_product_take hnames, List.getElem?_take_of_lt (by omega),
    List.getElem?_append_right (by rw [List.length_drop]; omega), List.length_drop, hlength,
    List.getElem?_drop]
  congr 1
  omega

end Split

/-- The split of the model string. It is as it should be, whatever the stack holds, just if the
product fits. -/
theorem splitModel_wellformed_iff (strings : IdentifyStrings) :
    (∀ locals, SplitsWell strings locals) ↔ ProductFits strings.text := by
  cases hnames : namesVendor strings.text with
  | false =>
    constructor
    · intro _ h
      rw [hnames] at h
      cases h
    · exact fun _ locals => splitsWell_known hnames
  | true =>
    rw [productFits_iff hnames]
    constructor
    · intro hwell
      -- The stack holds a byte that the last character of the field differs from.
      have hlast : ∃ byte, (blankPadded 16 (modelRemainder strings.text))[15]? ≠ some byte := by
        by_cases hzero : (blankPadded 16 (modelRemainder strings.text))[15]? = some 0
        · exact ⟨1, by rw [hzero]; decide⟩
        · exact ⟨0, hzero⟩
      obtain ⟨byte, hbyte⟩ := hlast
      obtain ⟨-, hinside, -, -, -, hfield⟩ :=
        hwell ⟨List.replicate 9 byte, List.replicate 17 byte, rfl, rfl⟩
      rw [inquiryBuffer_product (by rw [splitModel_vendor_length hnames]; omega) (by omega)]
        at hfield
      rw [splitModel_product_length hnames] at hinside
      have hle : remainderIndex strings.text ≤ 8 := by
        refine Nat.le_of_not_lt fun hlate => hbyte ?_
        rw [← hfield, splitModel_product_of_late hnames hlate]
        rfl
      omega
    · intro hfits locals
      have hvendor : (splitModel locals strings.temp).1.length = 9 :=
        splitModel_vendor_length hnames
      have hproduct : (splitModel locals strings.temp).2.length = 17 := by
        rw [splitModel_product_length hnames]
        omega
      have hpadded : (blankPadded 8 (vendorWord strings.text)).length = 8 := by
        simp [blankPadded]
      refine ⟨hvendor, hproduct, ?_, ?_, ?_, ?_⟩
      · rw [splitModel_vendor hnames, List.getElem?_append_right (by omega), hpadded]
        rfl
      · rw [splitModel_product hnames, getElem?_putBytes]
        rw [List.length_append, List.length_drop, List.length_drop, locals.product_length,
          strings.temp_length]
        omega
      · rw [inquiryBuffer_vendor (by omega), splitModel_vendor hnames, List.take_left' hpadded]
      · rw [inquiryBuffer_product (by omega) (by omega), splitModel_product_of_fits hnames hfits]

/-- The strings of a drive whose vendor word has three characters. -/
def wdcStrings : IdentifyStrings :=
  { model := mvAta2HostString (ascii ['W', 'D', 'C', ' ', 'W', 'D', '2', '5', '0', '0', 'J', 'D',
      '-', '0', '0', 'H', 'B', 'B', '0'] ++ List.replicate 21 blank)
    firmware := mvAta2HostString (ascii ['0', '8', '.', '0', '2', 'D', '0', '8'])
    model_length := rfl
    firmware_length := rfl }

/-- Twenty characters are stored in the seventeen bytes of `Product`. -/
theorem splitModel_overruns :
    ¬ ∀ (strings : IdentifyStrings) (locals : InquiryLocals), SplitsWell strings locals := by
  intro hwell
  exact absurd
    (hwell wdcStrings ⟨List.replicate 9 0, List.replicate 17 0, rfl, rfl⟩).product_inside
    (by decide)

end Mv88fxx81.Sata
