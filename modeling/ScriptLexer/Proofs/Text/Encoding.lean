import Mathlib.Data.List.Forall2

-- The bytes of a text told by the bytes alone: which sequences stand for a character, by the
-- table of well-formed sequences, and for which. The reader of scripts knows no table: a
-- text is what encodes to the bytes, and that both are one is proved here.
namespace ScriptLexer.Utf8

-- The ranges of the bytes, first to last. It is the second byte that shuts out the forms
-- that are longer than they need be, the surrogates and what lies above the last character.
def rows : List (List (Nat × Nat)) :=
  [[(0x00,0x7f)],
   [(0xc2,0xdf),(0x80,0xbf)],
   [(0xe0,0xe0),(0xa0,0xbf),(0x80,0xbf)],
   [(0xe1,0xec),(0x80,0xbf),(0x80,0xbf)],
   [(0xed,0xed),(0x80,0x9f),(0x80,0xbf)],
   [(0xee,0xef),(0x80,0xbf),(0x80,0xbf)],
   [(0xf0,0xf0),(0x90,0xbf),(0x80,0xbf),(0x80,0xbf)],
   [(0xf1,0xf3),(0x80,0xbf),(0x80,0xbf),(0x80,0xbf)],
   [(0xf4,0xf4),(0x80,0x8f),(0x80,0xbf),(0x80,0xbf)]]

def LiesIn (range : Nat × Nat) (byte : UInt8) : Prop := range.1 ≤ byte.toNat ∧ byte.toNat ≤ range.2

def IsSequence (bytes : List UInt8) : Prop := ∃ row ∈ rows, List.Forall₂ LiesIn row bytes

def IsWellFormed (bytes : List UInt8) : Prop :=
  ∃ parts : List (List UInt8), parts.flatten = bytes ∧ ∀ part ∈ parts, IsSequence part

def firstBase : Nat → Nat
  | 0 => 0x00
  | 1 => 0xc0
  | 2 => 0xe0
  | _ => 0xf0

def scalar : List UInt8 → Nat
  | [] => 0
  | first :: rest =>
    rest.foldl (fun number byte => number * 64 + (byte.toNat - 0x80)) (first.toNat - firstBase rest.length)

inductive Decodes : List UInt8 → List Char → Prop where
  | nil : Decodes [] []
  | cons {bytes more : List UInt8} {c : Char} {text : List Char} (sequence : IsSequence bytes)
      (number : c.toNat = scalar bytes) (rest : Decodes more text) : Decodes (bytes ++ more) (c :: text)

section Sequence

variable {a b c d : UInt8}

theorem scalar_one : scalar [a] = a.toNat := rfl

theorem scalar_two : scalar [a,b] = (a.toNat - 0xc0) * 64 + (b.toNat - 0x80) := rfl

theorem scalar_three :
    scalar [a,b,c] = ((a.toNat - 0xe0) * 64 + (b.toNat - 0x80)) * 64 + (c.toNat - 0x80) := rfl

theorem scalar_four :
    scalar [a,b,c,d] =
      (((a.toNat - 0xf0) * 64 + (b.toNat - 0x80)) * 64 + (c.toNat - 0x80)) * 64 + (d.toNat - 0x80) := rfl

theorem isSequence_one : IsSequence [a] ↔ a.toNat ≤ 0x7f := by
  simp [IsSequence,rows,LiesIn]

theorem isSequence_two :
    IsSequence [a,b] ↔ (0xc2 ≤ a.toNat ∧ a.toNat ≤ 0xdf) ∧ 0x80 ≤ b.toNat ∧ b.toNat ≤ 0xbf := by
  simp [IsSequence,rows,LiesIn]

theorem isSequence_three :
    IsSequence [a,b,c] ↔ (0xe0 ≤ a.toNat ∧ a.toNat ≤ 0xef) ∧ (0x80 ≤ b.toNat ∧ b.toNat ≤ 0xbf) ∧
      (0x80 ≤ c.toNat ∧ c.toNat ≤ 0xbf) ∧
      (a.toNat = 0xe0 → 0xa0 ≤ b.toNat) ∧ (a.toNat = 0xed → b.toNat ≤ 0x9f) := by
  simp [IsSequence,rows,LiesIn]
  omega

theorem isSequence_four :
    IsSequence [a,b,c,d] ↔ (0xf0 ≤ a.toNat ∧ a.toNat ≤ 0xf4) ∧ (0x80 ≤ b.toNat ∧ b.toNat ≤ 0xbf) ∧
      (0x80 ≤ c.toNat ∧ c.toNat ≤ 0xbf) ∧ (0x80 ≤ d.toNat ∧ d.toNat ≤ 0xbf) ∧
      (a.toNat = 0xf0 → 0x90 ≤ b.toNat) ∧ (a.toNat = 0xf4 → b.toNat ≤ 0x8f) := by
  simp [IsSequence,rows,LiesIn]
  omega

end Sequence

variable {bytes : List UInt8} {text : List Char}

theorem isSequence_length (sequence : IsSequence bytes) : 1 ≤ bytes.length ∧ bytes.length ≤ 4 := by
  obtain ⟨row,member,fits⟩ := sequence
  have lengths : ∀ row ∈ rows, 1 ≤ row.length ∧ row.length ≤ 4 := by decide
  rw [← fits.length_eq]
  exact lengths row member

theorem isSequence_cases {holds : List UInt8 → Prop} (sequence : IsSequence bytes)
    (one : ∀ a, IsSequence [a] → holds [a]) (two : ∀ a b, IsSequence [a,b] → holds [a,b])
    (three : ∀ a b c, IsSequence [a,b,c] → holds [a,b,c])
    (four : ∀ a b c d, IsSequence [a,b,c,d] → holds [a,b,c,d]) : holds bytes := by
  obtain ⟨nonempty,short⟩ := isSequence_length sequence
  rcases bytes with _ | ⟨a,_ | ⟨b,_ | ⟨c,_ | ⟨d,_ | ⟨e,rest⟩⟩⟩⟩⟩
  · cases nonempty
  · exact one a sequence
  · exact two a b sequence
  · exact three a b c sequence
  · exact four a b c d sequence
  · simp only [List.length_cons] at short
    omega

theorem scalar_valid (sequence : IsSequence bytes) : (scalar bytes).isValidChar := by
  unfold Nat.isValidChar
  apply isSequence_cases sequence
  · intro a one
    have bounds := isSequence_one.mp one
    simp only [scalar_one]
    omega
  · intro a b two
    have bounds := isSequence_two.mp two
    simp only [scalar_two]
    omega
  · intro a b c three
    have bounds := isSequence_three.mp three
    simp only [scalar_three]
    omega
  · intro a b c d four
    have bounds := isSequence_four.mp four
    simp only [scalar_four]
    omega

theorem byte_eq (byte : UInt8) {n : Nat} (same : n = byte.toNat) : UInt8.ofNat n = byte := by
  rw [same]
  exact UInt8.ofNat_toNat

theorem encode_scalar {c : Char} (sequence : IsSequence bytes) :
    c.toNat = scalar bytes → String.utf8EncodeChar c = bytes := by
  have value : c.toNat = c.val.toNat := rfl
  unfold String.utf8EncodeChar
  dsimp only
  apply isSequence_cases sequence
  · intro a one number
    have bounds := isSequence_one.mp one
    simp only [scalar_one] at number
    rw [if_pos (by omega),byte_eq a (by omega)]
  · intro a b two number
    have bounds := isSequence_two.mp two
    simp only [scalar_two] at number
    rw [if_neg (by omega),if_pos (by omega),byte_eq a (by omega),byte_eq b (by omega)]
  · intro a b d three number
    have bounds := isSequence_three.mp three
    simp only [scalar_three] at number
    rw [if_neg (by omega),if_neg (by omega),if_pos (by omega),byte_eq a (by omega),
      byte_eq b (by omega),byte_eq d (by omega)]
  · intro a b d e four number
    have bounds := isSequence_four.mp four
    simp only [scalar_four] at number
    rw [if_neg (by omega),if_neg (by omega),if_neg (by omega),byte_eq a (by omega),
      byte_eq b (by omega),byte_eq d (by omega),byte_eq e (by omega)]

theorem scalar_encode (c : Char) :
    IsSequence (String.utf8EncodeChar c) ∧ c.toNat = scalar (String.utf8EncodeChar c) := by
  have valid : c.val.toNat < 0xd800 ∨ 0xdfff < c.val.toNat ∧ c.val.toNat < 0x110000 := c.valid
  have value : c.toNat = c.val.toNat := rfl
  unfold String.utf8EncodeChar
  dsimp only
  split
  · simp only [isSequence_one,scalar_one,UInt8.toNat_ofNat']
    omega
  · split
    · simp only [isSequence_two,scalar_two,UInt8.toNat_ofNat']
      omega
    · split
      · simp only [isSequence_three,scalar_three,UInt8.toNat_ofNat']
        omega
      · simp only [isSequence_four,scalar_four,UInt8.toNat_ofNat']
        omega

theorem sequence_char (sequence : IsSequence bytes) : ∃ c : Char, c.toNat = scalar bytes := by
  have valid := scalar_valid sequence
  refine ⟨Char.ofNat (scalar bytes),?_⟩
  rw [Char.ofNat,dif_pos valid]
  rfl

theorem decodes_iff : Decodes bytes text ↔ text.flatMap String.utf8EncodeChar = bytes := by
  constructor
  · intro decodes
    induction decodes with
    | nil => rfl
    | cons sequence number rest ih =>
      rw [List.flatMap_cons,encode_scalar sequence number,ih]
  · intro written
    subst written
    induction text with
    | nil => exact .nil
    | cons c text ih =>
      obtain ⟨sequence,number⟩ := scalar_encode c
      exact .cons sequence number ih

theorem decodes_first {c : Char} {rest : List UInt8} (decodes : Decodes (String.utf8EncodeChar c ++ rest) text) :
    ∃ more, text = c :: more := by
  have written := decodes_iff.mp decodes
  cases text with
  | nil => simp at written
  | cons d more =>
    have bytes := congrArg List.toByteArray written
    rw [List.flatMap_cons,List.toByteArray_append,List.toByteArray_append] at bytes
    have first := congrArg (ByteArray.utf8DecodeChar? · 0) bytes
    simp only [ByteArray.utf8DecodeChar?_utf8EncodeChar_append] at first
    cases first
    exact ⟨more,rfl⟩

theorem isWellFormed_iff : IsWellFormed bytes ↔ ∃ text, Decodes bytes text := by
  constructor
  · rintro ⟨parts,rfl,sequences⟩
    induction parts with
    | nil => exact ⟨[],.nil⟩
    | cons part parts ih =>
      have first := sequences part List.mem_cons_self
      obtain ⟨c,number⟩ := sequence_char first
      obtain ⟨text,rest⟩ := ih fun other member => sequences other (List.mem_cons_of_mem part member)
      exact ⟨c :: text,.cons first number rest⟩
  · rintro ⟨text,decodes⟩
    induction decodes with
    | nil => exact ⟨[],rfl,by simp⟩
    | @cons part more c text sequence number rest ih =>
      obtain ⟨parts,rfl,sequences⟩ := ih
      refine ⟨part :: parts,rfl,?_⟩
      intro other member
      rcases List.mem_cons.mp member with rfl | later
      · exact sequence
      · exact sequences other later

theorem read_iff {content : ByteArray} {text : String} :
    String.fromUTF8? content = some text ↔ Decodes content.data.toList text.toList := by
  have encoded : text.toByteArray.data.toList = text.toList.flatMap String.utf8EncodeChar := by
    rw [← String.utf8Encode_toList,List.utf8Encode,List.toList_data_toByteArray]
  rw [decodes_iff,← encoded]
  constructor
  · intro read
    unfold String.fromUTF8? at read
    split at read
    · cases read
      rfl
    · cases read
  · intro same
    have whole : content = text.toByteArray := ByteArray.ext (Array.toList_inj.mp same.symm)
    rw [whole]
    exact dif_pos text.isValidUTF8

theorem decodes_unique {other : List Char} (one : Decodes bytes text) (two : Decodes bytes other) : text = other := by
  have read {text : List Char} (decodes : Decodes bytes text) :
      String.fromUTF8? bytes.toByteArray = some (String.ofList text) := by
    rw [read_iff,List.toList_data_toByteArray,String.toList_ofList]
    exact decodes
  exact String.ofList_injective (Option.some.inj ((read one).symm.trans (read two)))

theorem unread_iff {content : ByteArray} :
    String.fromUTF8? content = none ↔ ¬ IsWellFormed content.data.toList := by
  rw [isWellFormed_iff,Option.eq_none_iff_forall_ne_some,not_exists]
  constructor
  · intro refused text decodes
    apply refused (String.ofList text)
    rw [read_iff,String.toList_ofList]
    exact decodes
  · intro refused text read
    exact refused text.toList (read_iff.mp read)

end ScriptLexer.Utf8
