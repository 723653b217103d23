import Mathlib.Algebra.Order.Ring.Nat
import RngLowering.Outcome
import RngLowering.Proofs.Layout

set_option autoImplicit false

namespace RngLowering

open Lexer

/-- What may stand between two brackets: characters of one line, and further groups. -/
inductive Nested : List Char → Prop
  | nil : Nested []
  | char {c : Char} {rest : List Char} (plain : c ≠ '<' ∧ c ≠ '>' ∧ c ≠ '\n') (later : Nested rest) :
      Nested (c :: rest)
  | group {inner rest : List Char} (inside : Nested inner) (later : Nested rest) :
      Nested ('<' :: (inner ++ '>' :: rest))

/-- A bracket, what is nested in it, and the bracket that closes it. -/
def IsGroup (text : List Char) : Prop := ∃ inner, Nested inner ∧ text = '<' :: (inner ++ ['>'])

namespace Lexer

theorem group_open (depth : Nat) (rest : List Char) :
    group depth ('<' :: rest) = ('<' :: (group (depth + 1) rest).1, (group (depth + 1) rest).2) := by
  rw [group]
  rfl

theorem group_close (depth : Nat) (rest : List Char) :
    group (depth + 2) ('>' :: rest) =
      ('>' :: (group (depth + 1) rest).1, (group (depth + 1) rest).2) := by
  rw [group]
  rfl

theorem group_char {c : Char} (plain : c ≠ '<' ∧ c ≠ '>' ∧ c ≠ '\n') (depth : Nat)
    (rest : List Char) :
    group depth (c :: rest) = (c :: (group depth rest).1, (group depth rest).2) := by
  simp [group, plain]

/-- Inside a bracket, nested text is taken as it is and closes nothing. -/
theorem group_nested {inner : List Char} (nested : Nested inner) (depth : Nat) (rest : List Char) :
    group (depth + 1) (inner ++ rest) =
      (inner ++ (group (depth + 1) rest).1, (group (depth + 1) rest).2) := by
  induction nested generalizing depth rest with
  | nil => rfl
  | char plain _ ih => rw [List.cons_append, group_char plain, ih depth rest, List.cons_append]
  | @group inner more _ _ inside later =>
    rw [List.cons_append, List.append_assoc, List.cons_append, group_open,
      inside (depth + 1) ('>' :: (more ++ rest)), group_close, later depth rest]
    simp only [List.cons_append, List.append_assoc]

/-- Text that closes as many brackets as given, with nested text before each of them. -/
def Closes : Nat → List Char → Prop
  | 0, text => text = []
  | depth + 1, text => ∃ inner rest, Nested inner ∧ text = inner ++ '>' :: rest ∧ Closes depth rest

theorem Closes.opened {depth : Nat} {text : List Char} (closes : Closes (depth + 2) text) :
    Closes (depth + 1) ('<' :: text) := by
  obtain ⟨inner, _, inside, rfl, between, rest, later, rfl, left⟩ := closes
  exact ⟨'<' :: (inner ++ '>' :: between), rest, .group inside later, by simp, left⟩

theorem Closes.char {depth : Nat} {text : List Char} (closes : Closes (depth + 1) text) {c : Char}
    (plain : c ≠ '<' ∧ c ≠ '>' ∧ c ≠ '\n') : Closes (depth + 1) (c :: text) := by
  obtain ⟨inner, rest, inside, rfl, left⟩ := closes
  exact ⟨c :: inner, rest, .char plain inside, rfl, left⟩

/-- A group that closes has closed every bracket that was open. -/
theorem closes_of_group {depth : Nat} {text taken : List Char}
    (closed : group (depth + 1) text = (taken, true)) : Closes (depth + 1) taken := by
  induction text generalizing depth taken with
  | nil => cases closed
  | cons c rest ih =>
    by_cases newline : c = '\n'
    · rw [group, if_pos newline] at closed
      cases closed
    by_cases opens : c = '<'
    · subst opens
      rw [group_open] at closed
      obtain ⟨rfl, isClosed⟩ := Prod.mk.inj closed
      exact (ih (Prod.ext rfl isClosed)).opened
    by_cases closing : c = '>'
    · subst closing
      cases depth with
      | zero =>
        cases closed
        exact ⟨[], [], .nil, rfl, rfl⟩
      | succ depth =>
        rw [group_close] at closed
        obtain ⟨rfl, isClosed⟩ := Prod.mk.inj closed
        exact ⟨[], _, .nil, rfl, ih (Prod.ext rfl isClosed)⟩
    · rw [group_char ⟨opens, closing, newline⟩] at closed
      obtain ⟨rfl, isClosed⟩ := Prod.mk.inj closed
      exact (ih (Prod.ext rfl isClosed)).char ⟨opens, closing, newline⟩

end Lexer

/-- Parameters of a type are those that its brackets say. -/
theorem isParams_iff {params : List Char} : IsParams params ↔ params = [] ∨ IsGroup params := by
  refine or_congr_right ⟨?_, ?_⟩
  · rintro ⟨opening, closed⟩
    obtain ⟨rest, rfl⟩ := List.head?_eq_some_iff.mp opening
    rw [group_open] at closed
    obtain ⟨same, isClosed⟩ := Prod.mk.inj closed
    obtain ⟨inner, _, inside, split, rfl⟩ : Closes 1 rest :=
      closes_of_group (Prod.ext (List.cons.inj same).2 isClosed)
    exact ⟨inner, inside, by rw [split]⟩
  · rintro ⟨inner, inside, rfl⟩
    refine ⟨rfl, ?_⟩
    rw [group_open, group_nested inside 0 ['>']]
    rfl

/-- The token has a form in which it can be written. -/
def Token.Regular : Token → Prop
  | .ident word => ∃ c name params, word.toList = c :: (name ++ params) ∧ isNameStart c = true ∧
      (∀ d ∈ name, isNameChar d = true) ∧ (params = [] ∨ IsGroup params)
  | .symbol name => name.toList ≠ [] ∧ ∀ c ∈ name.toList, isNameChar c = true
  | .value name => name.toList ≠ [] ∧ ∀ c ∈ name.toList, isNameChar c = true
  | .int n => n < 2 ^ 128
  | .str inner => '"' ∉ inner.toList ∧ '\n' ∉ inner.toList
  | _ => True

theorem isName_iff {text : List Char} :
    IsName text ↔ text ≠ [] ∧ ∀ c ∈ text, isNameChar c = true :=
  ⟨fun isName => ⟨isName.nonempty, isName.chars⟩, fun isName => ⟨isName.1, isName.2⟩⟩

theorem Token.proper_iff_regular {t : Token} : t.Proper ↔ t.Regular := by
  cases t with
  | ident word => simp only [Token.Proper, Token.Regular, IsWord, isParams_iff]
  | symbol name => exact isName_iff
  | value name => exact isName_iff
  | int n => exact Iff.rfl
  | str inner =>
    change (∀ c ∈ inner.toList, c ≠ '"' ∧ c ≠ '\n') ↔ '"' ∉ inner.toList ∧ '\n' ∉ inner.toList
    grind
  | _ => exact Iff.rfl

def joinedChars (ts : List Token) : List Char :=
  [' '].intercalate (ts.map fun t => t.text.toList)

theorem joinedChars_cons_cons (t next : Token) (more : List Token) :
    joinedChars (t :: next :: more) = t.text.toList ++ ' ' :: joinedChars (next :: more) := by
  simp [joinedChars, List.intercalate_cons_cons]

theorem stops_blank (rest : List Char) : Stops (' ' :: rest) := by
  intro c head
  cases head
  decide

theorem tokensFrom_joined {ts : List Token} (proper : ∀ t ∈ ts, t.Proper) (pos : Pos) :
    ∃ placed, tokensFrom 0 pos (joinedChars ts) = .ok placed ∧ placed.map PlacedToken.token = ts := by
  induction ts generalizing pos with
  | nil => exact ⟨[], rfl, rfl⟩
  | cons t rest ih =>
    have here := proper t (by simp)
    cases rest with
    | nil =>
      have nothing : Stops [] := fun c head => by cases head
      have read : tokensFrom 0 pos (t.text.toList ++ []) = .ok [⟨t, pos⟩] :=
        tokensFrom_text here pos (.inr nothing) rfl
      refine ⟨[⟨t, pos⟩], ?_, rfl⟩
      simpa [joinedChars] using read
    | cons next more =>
      obtain ⟨placed, readRest, same⟩ := ih (fun u mem => proper u (by simp [mem]))
        ((pos.after t.text.toList).next ' ')
      refine ⟨⟨t, pos⟩ :: placed, ?_, by rw [List.map_cons, same]⟩
      rw [joinedChars_cons_cons]
      apply tokensFrom_text here pos (.inr (stops_blank _))
      rw [tokensFrom_blank (by decide)]
      exact readRest

/-- Tokens joined by single blanks are read back exactly if each has a form in which it can be
written. -/
theorem Lexer.tokens_joined_iff (ts : List Token) :
    (Lexer.tokens (String.intercalate " " (ts.map Token.text))).map (·.map PlacedToken.token) = .ok ts ↔
      ∀ t ∈ ts, t.Regular := by
  constructor
  · intro back t mem
    obtain ⟨placed, read, same⟩ := map_eq_ok.mp back
    rw [← same] at mem
    obtain ⟨placedToken, inside, rfl⟩ := List.mem_map.mp mem
    exact Token.proper_iff_regular.mp (proper_of_tokens read placedToken inside)
  · intro regular
    obtain ⟨placed, read, same⟩ := tokensFrom_joined
      (fun t mem => Token.proper_iff_regular.mpr (regular t mem)) {}
    refine map_eq_ok.mpr ⟨placed, ?_, same⟩
    unfold Lexer.tokens
    rw [String.toList_intercalate, List.map_map]
    exact read

end RngLowering
