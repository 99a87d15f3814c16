/-
# Printing with one argument of each type

If the arguments of one type are all the same, then what a conversion prints does not depend on the place
it has in the format (`expand_uniform`, `expand_of_has`). Two formats can so be told apart by the bytes
that their conversions print: for each letter there are arguments for which no conversion prints it
(`notMem_blank`), and no conversion always prints the bytes of its own modifiers (`exists_not_perm`).
-/
import NscaNg.Posix.Printf

namespace Posix.Printf

variable {F : Type}

/-- One argument of each type. -/
structure Uniform (F : Type) where
  int : ℤ
  real : Real F
  str : Bytes
  ptr : ℕ

namespace Uniform

variable (u : Uniform F) (real : Layout → UInt8 → F → Bytes)

/-- The argument for a conversion letter. -/
def arg (letter : UInt8) : Arg F :=
  if letter ∈ ascii "di" ∨ letter ∈ ascii "ouxX" ∨ letter = ch 'c' then .int u.int
  else if letter ∈ ascii "fFeEgGaA" then .real u.real
  else if letter = ch 's' then .str u.str
  else .ptr u.ptr

/-- It is one of these arguments. -/
def Has (a : Arg F) : Prop := a = .int u.int ∨ a = .real u.real ∨ a = .str u.str ∨ a = .ptr u.ptr

def size : Size → Option ℤ
  | .absent => none
  | .given n => some n
  | .star => some (u.int.bmod (2 ^ 32))

/-- The arguments that a size takes. -/
def sizeArgs : Size → List (Arg F)
  | .star => [.int u.int]
  | _ => []

def layout (c : Conversion) : Layout :=
  let t := templateOf c.mods
  t.layout (u.size t.width) (u.size t.precision)

/-- What a conversion prints. -/
def text (c : Conversion) : Bytes :=
  (printArg real c.letter (templateOf c.mods).length (u.layout c) (u.arg c.letter)).getD []

/-- The arguments that a token takes. -/
def pieceArgs : Piece → List (Arg F)
  | .conversion c =>
    u.sizeArgs (templateOf c.mods).width ++ (u.sizeArgs (templateOf c.mods).precision ++ [u.arg c.letter])
  | _ => []

def pieceText (err : Bytes) : Piece → Bytes
  | .literal c => [c]
  | .percent => [ch '%']
  | .errno => err
  | .conversion c => u.text real c

/-- The text for the tokens of a format. -/
def image (err : Bytes) (ts : List Piece) : Bytes := ts.flatMap (u.pieceText real err)

end Uniform

/-! ### What is printed -/

theorem letters_cases : ∀ c ∈ letters, c ∈ ascii "di" ∨ c ∈ ascii "ouxX" ∨ c = ch 'c' ∨ c ∈ ascii "fFeEgGaA" ∨
    c = ch 's' ∨ c = ch 'p' := by decide +kernel

theorem real_letters : ∀ c ∈ ascii "fFeEgGaA", ¬ (c ∈ ascii "di" ∨ c ∈ ascii "ouxX" ∨ c = ch 'c') := by
  decide +kernel

variable {u : Uniform F} {real : Layout → UInt8 → F → Bytes}

theorem arg_int {c : UInt8} (h : c ∈ ascii "di" ∨ c ∈ ascii "ouxX" ∨ c = ch 'c') : u.arg c = .int u.int := if_pos h

theorem arg_real {c : UInt8} (h : c ∈ ascii "fFeEgGaA") : u.arg c = .real u.real := by
  rw [Uniform.arg, if_neg (real_letters c h), if_pos h]

theorem arg_str : u.arg (ch 's') = .str u.str := rfl

theorem arg_ptr : u.arg (ch 'p') = .ptr u.ptr := rfl

/-- A conversion prints the argument for its letter. -/
theorem printArg_arg (u : Uniform F) (real : Layout → UInt8 → F → Bytes) {letter : UInt8} (h : letter ∈ letters)
    (length : Bytes) (l : Layout) :
    (printArg real letter length l (u.arg letter)).isSome = true := by
  rcases letters_cases letter h with hd | ho | rfl | hf | rfl | rfl
  · rw [arg_int (Or.inl hd), printArg, if_pos hd]
    rfl
  · rw [arg_int (Or.inr (Or.inl ho)), printArg]
    split_ifs <;> rfl
  · rfl
  · rw [arg_real hf, printArg, if_pos hf]
    rfl
  · rfl
  · rfl

/-- And among these arguments it prints no other. -/
theorem printArg_has {letter : UInt8} {length : Bytes} {l : Layout} {a : Arg F} {t : Bytes}
    (ha : u.Has a) (h : printArg real letter length l a = some t) : a = u.arg letter := by
  rcases ha with rfl | rfl | rfl | rfl
  · rw [printArg] at h
    split_ifs at h with h1 h2 h3
    · exact (arg_int (Or.inl h1)).symm
    · exact (arg_int (Or.inr (Or.inl h2))).symm
    · exact (arg_int (Or.inr (Or.inr h3))).symm
  · rw [printArg] at h
    split_ifs at h with h1
    exact (arg_real h1).symm
  · rw [printArg] at h
    split_ifs at h with h1
    rw [h1, arg_str]
  · rw [printArg] at h
    split_ifs at h with h1 <;> rw [h1, arg_ptr]

theorem has_arg (u : Uniform F) (c : UInt8) : u.Has (u.arg c) := by
  unfold Uniform.arg
  split_ifs
  · exact Or.inl rfl
  · exact Or.inr (Or.inl rfl)
  · exact Or.inr (Or.inr (Or.inl rfl))
  · exact Or.inr (Or.inr (Or.inr rfl))

theorem read_sizeArgs (s : Size) (rest : List (Arg F)) : s.read (u.sizeArgs s ++ rest) = some (u.size s, rest) := by
  cases s <;> rfl

theorem read_has {s : Size} {args rest : List (Arg F)} {v : Option ℤ} (hargs : ∀ a ∈ args, u.Has a)
    (h : s.read args = some (v, rest)) : v = u.size s ∧ ∀ a ∈ rest, u.Has a := by
  cases s with
  | absent =>
    obtain ⟨rfl, rfl⟩ := Prod.mk.inj (Option.some.inj h)
    exact ⟨rfl, hargs⟩
  | given n =>
    obtain ⟨rfl, rfl⟩ := Prod.mk.inj (Option.some.inj h)
    exact ⟨rfl, hargs⟩
  | star =>
    cases args with
    | nil => cases h
    | cons a args =>
      obtain ⟨ha, hrest⟩ := List.forall_mem_cons.mp hargs
      cases a with
      | int w =>
        obtain ⟨rfl, rfl⟩ := Prod.mk.inj (Option.some.inj h)
        have hw : w = u.int := by
          rcases ha with h | h | h | h
          · exact Arg.int.inj h
          · cases h
          · cases h
          · cases h
        exact ⟨by rw [hw]; rfl, hrest⟩
      | real x => cases h
      | str s => cases h
      | ptr p => cases h

theorem print_pieceArgs (c : Conversion) (rest : List (Arg F)) :
    c.print real (u.pieceArgs (.conversion c) ++ rest) = some (u.text real c, rest) := by
  obtain ⟨t, ht⟩ := Option.isSome_iff_exists.mp
    (printArg_arg u real c.letter_mem (templateOf c.mods).length (u.layout c))
  have hprint : c.print real (u.pieceArgs (.conversion c) ++ rest) =
      (printArg real c.letter (templateOf c.mods).length (u.layout c) (u.arg c.letter)).map (·, rest) := by
    rw [Conversion.print, Uniform.pieceArgs, List.append_assoc, read_sizeArgs]
    show (Size.read _ _).bind _ = _
    rw [List.append_assoc, read_sizeArgs]
    rfl
  rw [hprint, Uniform.text, ht]
  rfl

theorem print_has {c : Conversion} {args rest : List (Arg F)} {t : Bytes} (hargs : ∀ a ∈ args, u.Has a)
    (h : c.print real args = some (t, rest)) : t = u.text real c ∧ ∀ a ∈ rest, u.Has a := by
  obtain ⟨⟨width, args1⟩, hwidth, h⟩ := Option.bind_eq_some_iff.mp h
  obtain ⟨⟨precision, args2⟩, hprecision, h⟩ := Option.bind_eq_some_iff.mp h
  obtain ⟨rfl, hargs1⟩ := read_has hargs hwidth
  obtain ⟨rfl, hargs2⟩ := read_has hargs1 hprecision
  cases args2 with
  | nil => cases h
  | cons a args2 =>
    obtain ⟨ha, hrest⟩ := List.forall_mem_cons.mp hargs2
    obtain ⟨t', ht', heq⟩ := Option.map_eq_some_iff.mp h
    obtain ⟨rfl, rfl⟩ := Prod.mk.inj heq
    rw [printArg_has ha ht'] at ht'
    refine ⟨?_, hrest⟩
    rw [Uniform.text]
    exact (congrArg (Option.getD · []) ht').symm

/-- The tokens of a format print their text if each has its arguments. -/
theorem expand_uniform (u : Uniform F) (real : Layout → UInt8 → F → Bytes) (err : Bytes) (ts : List Piece) :
    expand real (some err) ts (ts.flatMap u.pieceArgs) = some (u.image real err ts) := by
  induction ts with
  | nil => rfl
  | cons t ts ih =>
    rw [List.flatMap_cons, Uniform.image, List.flatMap_cons]
    cases t with
    | literal c => exact congrArg (Option.map (c :: ·)) ih
    | percent => exact congrArg (Option.map (ch '%' :: ·)) ih
    | errno => exact congrArg (Option.map (err ++ ·)) ih
    | conversion c =>
      rw [expand, print_pieceArgs, Option.bind_some, ih]
      rfl

/-- Whatever they print with some of these arguments is that text. -/
theorem expand_of_has {err : Bytes} {ts : List Piece} {args : List (Arg F)} {t : Bytes}
    (hargs : ∀ a ∈ args, u.Has a) (h : expand real none ts args = some t) : t = u.image real err ts := by
  induction ts generalizing args t with
  | nil => exact (Option.some.inj h).symm
  | cons token ts ih =>
    rw [Uniform.image, List.flatMap_cons]
    cases token with
    | literal c =>
      obtain ⟨rest, hrest, rfl⟩ := Option.map_eq_some_iff.mp h
      rw [ih hargs hrest]
      rfl
    | percent =>
      obtain ⟨rest, hrest, rfl⟩ := Option.map_eq_some_iff.mp h
      rw [ih hargs hrest]
      rfl
    | errno => cases h
    | conversion c =>
      obtain ⟨⟨t1, args1⟩, hprint, h⟩ := Option.bind_eq_some_iff.mp h
      obtain ⟨rest, hrest, rfl⟩ := Option.map_eq_some_iff.mp h
      obtain ⟨rfl, hargs1⟩ := print_has hargs hprint
      rw [ih hargs1 hrest]
      rfl

theorem has_pieceArgs (u : Uniform F) (ts : List Piece) : ∀ a ∈ ts.flatMap u.pieceArgs, u.Has a := by
  have hsize : ∀ s : Size, ∀ a ∈ u.sizeArgs s, u.Has a := by
    intro s a ha
    cases s with
    | absent => cases ha
    | given n => cases ha
    | star => exact Or.inl (List.mem_singleton.mp ha)
  intro a ha
  obtain ⟨t, -, ha⟩ := List.mem_flatMap.mp ha
  cases t with
  | literal c => cases ha
  | percent => cases ha
  | errno => cases ha
  | conversion c =>
    rcases List.mem_append.mp ha with ha | ha
    · exact hsize _ a ha
    · rcases List.mem_append.mp ha with ha | ha
      · exact hsize _ a ha
      · rw [List.mem_singleton.mp ha]
        exact has_arg u c.letter

/-! ### The bytes of what is printed -/

theorem mem_pad {l : Layout} {t : Bytes} {b : UInt8} (h : b ∈ l.pad t) : b = ch ' ' ∨ b ∈ t := by
  unfold Layout.pad at h
  split at h <;> rcases List.mem_append.mp h with h | h
  · exact Or.inr h
  · exact Or.inl (List.eq_of_mem_replicate h)
  · exact Or.inl (List.eq_of_mem_replicate h)
  · exact Or.inr h

theorem subset_pad (l : Layout) (t : Bytes) : t ⊆ l.pad t := by
  unfold Layout.pad
  split
  · exact List.subset_append_left _ _
  · exact List.subset_append_right _ _

theorem mem_number {l : Layout} {sign digits : Bytes} {b : UInt8} (h : b ∈ l.number sign digits) :
    b = ch ' ' ∨ b = ch '0' ∨ b ∈ sign ∨ b ∈ digits := by
  rcases mem_pad h with h | h
  · exact Or.inl h
  · rcases List.mem_append.mp h with h | h
    · rcases List.mem_append.mp h with h | h
      · exact Or.inr (Or.inr (Or.inl h))
      · exact Or.inr (Or.inl (List.eq_of_mem_replicate h))
    · exact Or.inr (Or.inr (Or.inr h))

theorem subset_number (l : Layout) (sign digits : Bytes) : digits ⊆ l.number sign digits :=
  fun _ h => subset_pad l _ (List.mem_append_right _ h)

theorem mem_sign {l : Layout} {b : UInt8} (h : b ∈ l.sign false) : b = ch '+' ∨ b = ch ' ' := by
  rw [Layout.sign, if_neg (by decide)] at h
  split_ifs at h
  · exact Or.inl (List.mem_singleton.mp h)
  · exact Or.inr (List.mem_singleton.mp h)
  · cases h

theorem mem_digits {l : Layout} {base v : ℕ} {b : UInt8} (h : b ∈ l.digits base v) :
    b = ch '0' ∨ b ∈ (Nat.toDigits base v).map ch := by
  rcases List.mem_append.mp h with h | h
  · exact Or.inl (List.eq_of_mem_replicate h)
  · split at h
    · cases h
    · exact Or.inr h

theorem toDigits_zero_map (base : ℕ) : (Nat.toDigits base 0).map ch = [ch '0'] := by
  rw [Nat.toDigits_zero]
  rfl

theorem toDigits_one_map {base : ℕ} (h : 1 < base) : (Nat.toDigits base 1).map ch = [ch '1'] := by
  rw [Nat.toDigits_of_lt_base h]
  rfl

theorem mem_digits_zero {l : Layout} {base : ℕ} {b : UInt8} (h : b ∈ l.digits base 0) : b = ch '0' := by
  rcases mem_digits h with h | h
  · exact h
  · rw [toDigits_zero_map] at h
    exact List.mem_singleton.mp h

theorem one_mem_digits (l : Layout) {base : ℕ} (h : 1 < base) : ch '1' ∈ l.digits base 1 := by
  unfold Layout.digits
  rw [if_neg fun h => absurd h.1 Nat.one_ne_zero, toDigits_one_map h]
  exact List.mem_append_right _ (List.mem_singleton.mpr rfl)

theorem mem_signed_zero {l : Layout} {b : UInt8} (h : b ∈ l.signed 0) : b ∈ ascii " 0+" := by
  rcases mem_number h with rfl | rfl | h | h
  · decide
  · decide
  · rcases mem_sign h with rfl | rfl <;> decide
  · rw [mem_digits_zero h]
    decide

theorem mem_unsignedDigits_zero {l : Layout} {letter b : UInt8} (h : b ∈ l.unsignedDigits letter 0) :
    b = ch '0' := by
  unfold Layout.unsignedDigits at h
  split_ifs at h
  · exact mem_digits_zero h
  · rcases List.mem_cons.mp h with rfl | h
    · rfl
    · exact mem_digits_zero h
  · exact mem_digits_zero h
  · exact mem_digits_zero h
  · obtain ⟨e, he, rfl⟩ := List.mem_map.mp h
    rw [mem_digits_zero he]
    rfl

theorem mem_unsigned_zero {l : Layout} {letter b : UInt8} (h : b ∈ l.unsigned letter 0) : b ∈ ascii " 0" := by
  rcases mem_number h with rfl | rfl | h | h
  · decide
  · decide
  · rw [Layout.baseMark, if_neg fun h => h.2.1 rfl] at h
    cases h
  · rw [mem_unsignedDigits_zero h]
    decide

theorem one_mem_signed (l : Layout) : ch '1' ∈ l.signed 1 := subset_number l _ _ (one_mem_digits l (by decide))

theorem one_mem_unsigned (l : Layout) (letter : UInt8) : ch '1' ∈ l.unsigned letter 1 := by
  refine subset_number l _ _ ?_
  unfold Layout.unsignedDigits
  split_ifs
  · exact one_mem_digits l (by decide)
  · exact List.mem_cons_of_mem _ (one_mem_digits l (by decide))
  · exact one_mem_digits l (by decide)
  · exact one_mem_digits l (by decide)
  · exact List.mem_map.mpr ⟨ch '1', one_mem_digits l (by decide), by decide⟩

/-! ### Telling formats apart -/

/-- Arguments for which no conversion prints a given letter. -/
def blank (F : Type) (letter : UInt8) : Uniform F where
  int := 0
  real := if letter ∈ ascii "aA" then .inf false else .nan false
  str := []
  ptr := if letter = ch 'i' then 1 else 0

/-- What a conversion of integers prints. -/
theorem text_int (u : Uniform F) (real : Layout → UInt8 → F → Bytes) (c : Conversion) {v : ℤ} (hu : u.int = v) :
    (c.letter ∈ ascii "di" → u.text real c = (u.layout c).signed (v.bmod (2 ^ bits (templateOf c.mods).length))) ∧
    (c.letter ∈ ascii "ouxX" → c.letter ∉ ascii "di" →
      u.text real c = (u.layout c).unsigned c.letter (v % 2 ^ bits (templateOf c.mods).length).toNat) ∧
    (c.letter = ch 'c' → u.text real c = (u.layout c).pad [UInt8.ofNat (v % 256).toNat]) := by
  refine ⟨fun h => ?_, fun h hd => ?_, fun h => ?_⟩
  · rw [Uniform.text, arg_int (Or.inl h), printArg, if_pos h, hu]
    rfl
  · rw [Uniform.text, arg_int (Or.inr (Or.inl h)), printArg, if_neg hd, if_pos h, hu]
    rfl
  · rw [Uniform.text, h, arg_int (Or.inr (Or.inr rfl)), printArg, if_neg (by decide), if_neg (by decide), if_pos rfl, hu]
    rfl

theorem ouxX_not_di : ∀ c ∈ ascii "ouxX", c ∉ ascii "di" := by decide +kernel

theorem bits_cases (length : Bytes) : bits length = 8 ∨ bits length = 16 ∨ bits length = 32 ∨ bits length = 64 := by
  unfold bits
  split_ifs
  · exact Or.inl rfl
  · exact Or.inr (Or.inl rfl)
  · exact Or.inr (Or.inr (Or.inl rfl))
  · exact Or.inr (Or.inr (Or.inr rfl))

theorem bmod_small (length : Bytes) : (0 : ℤ).bmod (2 ^ bits length) = 0 ∧ (1 : ℤ).bmod (2 ^ bits length) = 1 := by
  rcases bits_cases length with h | h | h | h <;> rw [h] <;> decide

theorem emod_small (length : Bytes) :
    ((0 : ℤ) % 2 ^ bits length).toNat = 0 ∧ ((1 : ℤ) % 2 ^ bits length).toNat = 1 := by
  rcases bits_cases length with h | h | h | h <;> rw [h] <;> decide

theorem text_real {c : Conversion} (h : c.letter ∈ ascii "fFeEgGaA") :
    u.text real c = (u.layout c).real real c.letter u.real := by
  rw [Uniform.text, arg_real h, printArg, if_pos h]
  rfl

theorem text_str {c : Conversion} (h : c.letter = ch 's') :
    u.text real c = (u.layout c).pad (match (u.layout c).precision with | none => u.str | some p => u.str.take p) := by
  rw [Uniform.text, h, arg_str, printArg, if_pos rfl]
  rfl

theorem text_ptr {c : Conversion} (h : c.letter = ch 'p') : u.text real c =
    if u.ptr = 0 then (u.layout c).pad (ascii "(nil)")
    else Layout.unsigned { u.layout c with alternate := true } (ch 'x') u.ptr := by
  rw [Uniform.text, h, arg_ptr, printArg, if_pos rfl]
  rfl

/-- What an integer conversion prints for 0. -/
theorem mem_text_zero {c : Conversion} (hu : u.int = 0)
    (hc : c.letter ∈ ascii "di" ∨ c.letter ∈ ascii "ouxX" ∨ c.letter = ch 'c') {b : UInt8} (hb : b ∈ u.text real c) :
    b ∈ 0 :: ascii " 0+" := by
  obtain ⟨hd, ho, hchar⟩ := text_int u real c hu
  rcases hc with hc | hc | hc
  · rw [hd hc, (bmod_small _).1] at hb
    exact List.mem_cons_of_mem _ (mem_signed_zero hb)
  · rw [ho hc (ouxX_not_di _ hc), (emod_small _).1] at hb
    have hsub : ascii " 0" ⊆ 0 :: ascii " 0+" := by decide
    exact hsub (mem_unsigned_zero hb)
  · rw [hchar hc] at hb
    rcases mem_pad hb with rfl | hb
    · decide
    · rw [List.mem_singleton.mp hb]
      decide

theorem mem_word {l : Layout} {word : Bytes} {b : UInt8} (h : b ∈ l.pad (l.sign false ++ word)) :
    b ∈ ascii " +" ++ word := by
  rcases mem_pad h with rfl | h
  · exact List.mem_append_left _ (by decide)
  · rcases List.mem_append.mp h with h | h
    · rcases mem_sign h with rfl | rfl <;> exact List.mem_append_left _ (by decide)
    · exact List.mem_append_right _ h

/-- A not-a-number and an infinity have letters only. -/
theorem mem_real {l : Layout} {letter b : UInt8} :
    (b ∈ l.real real letter (.nan false) → b ∈ ascii " +nanNAN") ∧
      (b ∈ l.real real letter (.inf false) → b ∈ ascii " +infINF") := by
  have hnan : ∀ upper : Bool, ascii " +" ++ (if upper then ascii "NAN" else ascii "nan") ⊆ ascii " +nanNAN" := by
    decide
  have hinf : ∀ upper : Bool, ascii " +" ++ (if upper then ascii "INF" else ascii "inf") ⊆ ascii " +infINF" := by
    decide
  exact ⟨fun hb => hnan _ (mem_word hb), fun hb => hinf _ (mem_word hb)⟩

theorem mem_unsigned_one {l : Layout} {b : UInt8} (h : b ∈ l.unsigned (ch 'x') 1) : b ∈ ascii " 0x1" := by
  rcases mem_number h with rfl | rfl | h | h
  · decide
  · decide
  · unfold Layout.baseMark at h
    split at h
    · have hmark : [ch '0', ch 'x'] ⊆ ascii " 0x1" := by decide
      exact hmark h
    · cases h
  · rcases mem_digits (show b ∈ l.digits 16 1 from h) with rfl | h
    · decide
    · rw [toDigits_one_map (by decide)] at h
      rw [List.mem_singleton.mp h]
      decide

theorem notMem_text_blank {letter : UInt8} (hletter : letter ∈ letters) {b : UInt8} (hb : b = letter ∨ b = ch '%')
    (c : Conversion) : b ∉ (blank F letter).text real c := by
  intro hmem
  have hcases : ∀ {s : Bytes}, b ∈ s → letter ∉ s → ch '%' ∉ s → False := by
    intro s hs hl hp
    rcases hb with rfl | rfl
    · exact hl hs
    · exact hp hs
  have hint : ∀ letter ∈ letters, letter ∉ 0 :: ascii " 0+" := by decide +kernel
  rcases letters_cases c.letter c.letter_mem with hc | hc | hc | hc | hc | hc
  · exact hcases (mem_text_zero rfl (Or.inl hc) hmem) (hint _ hletter) (by decide)
  · exact hcases (mem_text_zero rfl (Or.inr (Or.inl hc)) hmem) (hint _ hletter) (by decide)
  · exact hcases (mem_text_zero rfl (Or.inr (Or.inr hc)) hmem) (hint _ hletter) (by decide)
  · rw [text_real hc, blank] at hmem
    by_cases ha : letter ∈ ascii "aA"
    · simp only [if_pos ha] at hmem
      have hinf : ∀ letter ∈ ascii "aA", letter ∉ ascii " +infINF" := by decide +kernel
      exact hcases (mem_real.2 hmem) (hinf _ ha) (by decide)
    · simp only [if_neg ha] at hmem
      have hnan : ∀ letter ∈ letters, letter ∉ ascii "aA" → letter ∉ ascii " +nanNAN" := by decide +kernel
      exact hcases (mem_real.1 hmem) (hnan _ hletter ha) (by decide)
  · rw [text_str hc, blank] at hmem
    have hspace : b ∈ ascii " " := by
      rcases mem_pad hmem with rfl | hmem
      · decide
      · split at hmem
        · cases hmem
        · rw [List.take_nil] at hmem
          cases hmem
    have hletters : ∀ letter ∈ letters, letter ∉ ascii " " := by decide +kernel
    exact hcases hspace (hletters _ hletter) (by decide)
  · rw [text_ptr hc, blank] at hmem
    by_cases hi : letter = ch 'i'
    · simp only [if_pos hi] at hmem
      rw [if_neg Nat.one_ne_zero] at hmem
      exact hcases (mem_unsigned_one hmem) (by rw [hi]; decide) (by decide)
    · simp only [if_neg hi] at hmem
      rw [if_pos trivial] at hmem
      have hnil : b ∈ ascii " (nil)" := by
        have hsub : ascii "(nil)" ⊆ ascii " (nil)" := by decide
        rcases mem_pad hmem with rfl | hmem
        · decide
        · exact hsub hmem
      have hletters : ∀ letter ∈ letters, letter ≠ ch 'i' → letter ∉ ascii " (nil)" := by decide +kernel
      exact hcases hnil (hletters _ hletter hi) (by decide)

theorem widthOf_subset (s : Bytes) : (widthOf s).2 ⊆ s := by
  unfold widthOf
  split
  · exact List.tail_subset s
  · exact (List.dropWhile_suffix _).subset

theorem precisionOf_of_head {s : Bytes} (h : s.head? ≠ some (ch '.')) : precisionOf s = (.absent, s) := if_neg h

/-- Only a period makes a precision. -/
theorem precision_layout {c : Conversion} (h : ch '.' ∉ c.mods) : (u.layout c).precision = none := by
  have hrest : ch '.' ∉ (widthOf (c.mods.dropWhile isFlag)).2 := fun hmem =>
    h ((List.dropWhile_suffix _).subset (widthOf_subset _ hmem))
  have habsent : (templateOf c.mods).precision = .absent :=
    congrArg Prod.fst (precisionOf_of_head fun hhead => hrest (List.mem_of_head? hhead))
  have hlayout : (u.layout c).precision =
      (u.size (templateOf c.mods).precision).bind fun p => if p < 0 then none else some p.toNat := rfl
  rw [hlayout, habsent]
  rfl

theorem notMem_mods {c : Conversion} {b : UInt8} (h : isModifier b = false) : b ∉ c.mods := fun hmem => by
  rw [c.isModifier_mods b hmem] at h
  cases h

theorem not_perm_of_mem {c : Conversion} {b : UInt8} (hb : isModifier b = false) (h : b ∈ u.text real c) :
    ¬ c.mods.Perm (u.text real c) := fun hperm => notMem_mods hb (hperm.mem_iff.mpr h)

/-- An integer conversion prints a 1 for 1, and none for 0. -/
theorem exists_not_perm_int (real : Layout → UInt8 → F → Bytes) {c : Conversion}
    (hc : c.letter ∈ ascii "di" ∨ c.letter ∈ ascii "ouxX") : ∃ u : Uniform F, ¬ c.mods.Perm (u.text real c) := by
  by_cases hone : ch '1' ∈ c.mods
  · let u : Uniform F := ⟨0, .nan false, [], 0⟩
    have hzero : c.letter ∈ ascii "di" ∨ c.letter ∈ ascii "ouxX" ∨ c.letter = ch 'c' :=
      hc.imp_right Or.inl
    exact ⟨u, fun hperm => absurd (mem_text_zero (u := u) rfl hzero (hperm.mem_iff.mp hone)) (by decide)⟩
  · let u : Uniform F := ⟨1, .nan false, [], 0⟩
    refine ⟨u, fun hperm => hone (hperm.mem_iff.mpr ?_)⟩
    obtain ⟨hd, ho, -⟩ := text_int u real c rfl
    rcases hc with hc | hc
    · rw [hd hc, (bmod_small _).2]
      exact one_mem_signed _
    · rw [ho hc (ouxX_not_di _ hc), (emod_small _).2]
      exact one_mem_unsigned _ _

theorem exists_not_perm_str (real : Layout → UInt8 → F → Bytes) {c : Conversion} (hc : c.letter = ch 's') :
    ∃ u : Uniform F, ¬ c.mods.Perm (u.text real c) := by
  by_cases hperiod : ch '.' ∈ c.mods
  · -- the empty string is printed without a period, whatever the precision
    let u : Uniform F := ⟨0, .nan false, [], 0⟩
    refine ⟨u, fun hperm => ?_⟩
    have hmem := hperm.mem_iff.mp hperiod
    rw [text_str hc] at hmem
    rcases mem_pad hmem with h | h
    · exact absurd h (by decide)
    · split at h
      · cases h
      · rw [show u.str = [] from rfl, List.take_nil] at h
        cases h
  · let u : Uniform F := ⟨0, .nan false, [ch 'q'], 0⟩
    refine ⟨u, not_perm_of_mem (b := ch 'q') (by decide) ?_⟩
    rw [text_str hc, precision_layout hperiod]
    exact subset_pad _ _ (List.mem_singleton.mpr rfl)

/-- **No conversion always prints its own modifiers**, not even in another order. -/
theorem exists_not_perm (real : Layout → UInt8 → F → Bytes) (c : Conversion) :
    ∃ u : Uniform F, ¬ c.mods.Perm (u.text real c) := by
  let u : Uniform F := ⟨0, .nan false, [], 0⟩
  rcases letters_cases c.letter c.letter_mem with hc | hc | hc | hc | hc | hc
  · exact exists_not_perm_int real (Or.inl hc)
  · exact exists_not_perm_int real (Or.inr hc)
  · refine ⟨u, not_perm_of_mem (b := 0) (by decide) ?_⟩
    rw [(text_int u real c rfl).2.2 hc]
    exact subset_pad _ _ (List.mem_singleton.mpr rfl)
  · have htext : u.text real c = (u.layout c).pad ((u.layout c).sign false ++
        if isUpper c.letter then ascii "NAN" else ascii "nan") := text_real hc
    by_cases hupper : isUpper c.letter = true
    · refine ⟨u, not_perm_of_mem (b := ch 'N') (by decide) ?_⟩
      rw [htext, if_pos hupper]
      exact subset_pad _ _ (List.mem_append_right _ (by decide))
    · refine ⟨u, not_perm_of_mem (b := ch 'n') (by decide) ?_⟩
      rw [htext, if_neg hupper]
      exact subset_pad _ _ (List.mem_append_right _ (by decide))
  · exact exists_not_perm_str real hc
  · refine ⟨u, not_perm_of_mem (b := ch '(') (by decide) ?_⟩
    rw [text_ptr hc, if_pos rfl]
    exact subset_pad _ _ (by decide)

end Posix.Printf
