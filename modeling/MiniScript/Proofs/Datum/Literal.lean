import MiniScript.Proofs.Datum.Basic
import MiniScript.Proofs.Parser.RoundTrip
import MiniScript.Proofs.Token.Lexemes

/-!
# The literal of a datum

Every datum has an expression that writes it. The text of the datum is made of the
tokens of that expression.
-/

namespace MiniScript

namespace Number

/-- The double that is written for an integer. -/
def ofInteger : Int → Float
  | .ofNat natural => ofDecimal natural 0
  | .negSucc natural => -ofDecimal (natural + 1) 0

theorem small_of_natAbs {natural : Nat} (small : natural < 1000000000000000) :
    natural < 2 * hiddenBit :=
  Nat.lt_trans small (by decide)

theorem integer?_ofInteger {integer : Int} (small : integer.natAbs < 1000000000000000) :
    integer? (ofInteger integer) = some integer := by
  cases integer with
  | ofNat natural => exact integer?_ofDecimal (small_of_natAbs small)
  | negSucc natural => exact integer?_neg (integer?_ofDecimal (small_of_natAbs small))

theorem isNegative_of_integer? {value : Float} {integer : Int}
    (known : integer? value = some integer) (nonzero : integer ≠ 0) :
    isNegative value = decide (integer < 0) := by
  obtain ⟨negative, mantissa, exponent, finite, _, _, sign⟩ := integer?_eq_some.mp known
  rw [isNegative, finite]
  exact Bool.eq_iff_iff.mpr ((sign nonzero).trans decide_eq_true_iff.symm)

theorem isNegative_ofInteger {integer : Int} (small : integer.natAbs < 1000000000000000) :
    isNegative (ofInteger integer) = decide (integer < 0) := by
  by_cases zero : integer = 0
  · subst zero
    rfl
  · exact isNegative_of_integer? (integer?_ofInteger small) zero

end Number

namespace Datum

mutual

/-- The expression that writes a datum. -/
def literal : Datum → Expr
  | .null => .null default 0
  | .integer value => .number (Number.ofInteger value) default 0
  | .text value => .text value default 0
  | .list items => .list default 0 (literals items)
  | .map pairs => .map default 0 (literalPairs pairs)

def literals : List Datum → List Expr
  | [] => []
  | item :: rest => item.literal :: literals rest

def literalPairs : List (Datum × Datum) → List (Expr × Expr)
  | [] => []
  | (key, value) :: rest => (key.literal, value.literal) :: literalPairs rest

end

def literalPair (pair : Datum × Datum) : Expr × Expr :=
  (pair.1.literal, pair.2.literal)

@[simp] theorem literals_eq (items : List Datum) : literals items = items.map literal := by
  induction items with
  | nil => rfl
  | cons item rest ih => rw [literals, ih, List.map_cons]

@[simp] theorem literalPairs_eq (pairs : List (Datum × Datum)) :
    literalPairs pairs = pairs.map literalPair := by
  induction pairs with
  | nil => rfl
  | cons pair rest ih => rw [literalPairs, ih, List.map_cons, literalPair]

variable {limit : Nat} {datum : Datum}

theorem literal_tight (plain : datum.Plain limit) : datum.literal.Tight := by
  induction plain with
  | null => exact .null
  | integer => exact .number
  | text => exact .text
  | list _ ih =>
      rw [literal, literals_eq]
      refine .list fun item member => ?_
      obtain ⟨datum, inside, rfl⟩ := List.mem_map.mp member
      exact ih datum inside
  | map _ _ _ keys values =>
      rw [literal, literalPairs_eq]
      refine .map (fun entry member => ?_) fun entry member => ?_
      · obtain ⟨pair, inside, rfl⟩ := List.mem_map.mp member
        exact keys pair inside
      · obtain ⟨pair, inside, rfl⟩ := List.mem_map.mp member
        exact values pair inside

open Token in
/-- The text of a datum is made of the tokens of its literal. -/
theorem lexes_written (plain : datum.Plain limit) {rest : List Char} (breaks : Breaks rest) :
    Lexes (datum.written.toList ++ rest) datum.literal.marks rest := by
  induction plain generalizing rest with
  | null => exact .null breaks
  | @integer _ integer small =>
      rw [written, literal, Expr.marks_number, Number.isNegative_ofInteger small]
      cases integer with
      | ofNat natural => exact .number natural breaks
      | negSucc natural =>
          have chars : (toString (Int.negSucc natural)).toList =
              '-' :: (toString (natural + 1)).toList := String.toList_append
          rw [chars, decide_eq_true (Int.negSucc_lt_zero natural), if_pos rfl, Number.ofInteger,
            Number.neg_neg]
          exact .negative (natural + 1) breaks
  | text line => exact .text line breaks
  | @list _ items _ ih =>
      have close : Lexes (']' :: rest) [.symbol .rightBracket] rest :=
        .mark (by decide) rfl (Or.inl rfl)
      have row := Lexes.row (fun item member rest => @ih item member rest) (by decide) close
      have first : Lexes ('[' :: ([',', ' '].intercalate
          (items.map fun item => item.written.toList) ++ ']' :: rest)) [.symbol .leftBracket] _ :=
        .mark (by decide) rfl (Or.inl rfl)
      have whole := first.next row
      simp only [written, literal, Expr.marks, Expr.marksOfEach_eq, writtenItems_eq, literals_eq,
        String.toList_append, String.toList_intercalate, List.map_map, List.append_assoc]
      exact whole
  | @map _ pairs _ _ _ keys values =>
      have each : ∀ pair ∈ pairs, ∀ rest, Breaks rest →
          Lexes ((writtenPair pair).toList ++ rest) (Expr.entryMarks (literalPair pair)) rest := by
        intro pair member rest breaks
        have colon : Lexes (':' :: ' ' :: (pair.2.written.toList ++ rest)) [.symbol .colon]
            (' ' :: (pair.2.written.toList ++ rest)) := .mark (by decide) rfl (Or.inl rfl)
        have key := @keys pair member (':' :: ' ' :: (pair.2.written.toList ++ rest))
          (.ofCons (by decide) _)
        have whole := (key.next colon).blank (values pair member breaks)
        simpa [writtenPair, Expr.entryMarks, literalPair] using whole
      have close : Lexes ('}' :: rest) [.symbol .rightBrace] rest :=
        .mark (by decide) rfl (Or.inl rfl)
      have row := Lexes.row each (by decide) close
      have first : Lexes ('{' :: ([',', ' '].intercalate
          (pairs.map fun pair => (writtenPair pair).toList) ++ '}' :: rest))
          [.symbol .leftBrace] _ := .mark (by decide) rfl (Or.inl rfl)
      have whole := first.next row
      simp only [written, literal, Expr.marks, Expr.marksOfEntries_eq, writtenPairs_eq,
        literalPairs_eq, String.toList_append, String.toList_intercalate, List.map_map,
        List.append_assoc]
      exact whole

end Datum

end MiniScript
