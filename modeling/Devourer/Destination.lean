import Devourer.Foundation.Digits
import Devourer.Handover

/-! # Where the messages are sent

`setdst_fluentd` takes what comes before the first colon as the host and reads the port
behind it with `strtoul`. The function reads a numeral in one of three notations
(`Numeral`), perhaps after blanks and a sign, and says where it stopped; the only check is
that this is the end of the text.
-/

set_option linter.dupNamespace false

namespace Devourer

/-- The unsigned numerals of C, decimal, octal and hexadecimal, with their values. -/
inductive Numeral : List Char → ℕ → Prop where
  | decimal (first : Char) (rest : List Char) : first ≠ '0' →
      (∀ digit ∈ first :: rest, digitValue digit < 10) →
      Numeral (first :: rest) (Digits.number 10 digitValue (first :: rest))
  | octal (rest : List Char) : (∀ digit ∈ rest, digitValue digit < 8) →
      Numeral ('0' :: rest) (Digits.number 8 digitValue rest)
  | hexadecimal (mark first : Char) (rest : List Char) : mark = 'x' ∨ mark = 'X' →
      (∀ digit ∈ first :: rest, digitValue digit < 16) →
      Numeral ('0' :: mark :: first :: rest) (Digits.number 16 digitValue (first :: rest))

/-- What may stand in front of a numeral, and whether it negates. -/
inductive Sign : List Char → Bool → Prop where
  | none : Sign [] false
  | plus : Sign ['+'] false
  | minus : Sign ['-'] true

/-- What `strtoul` returns for a numeral of the value: too large a value is replaced by the
largest that there is, and a negated one wraps. -/
def narrow (negative : Bool) (value : ℕ) : UInt64 :=
  if 2 ^ 64 ≤ value then UInt64.ofNat (2 ^ 64 - 1)
  else if negative then -UInt64.ofNat value
  else UInt64.ofNat value

/-- The text after its sign. -/
def unsigned (body : List Char) : List Char :=
  if body.head? = some '-' ∨ body.head? = some '+' then body.tail else body

/-- The base of the numeral at the front of the text, and the text from its digits on. -/
def radix (body : List Char) : ℕ × List Char :=
  match body with
  | '0' :: mark :: digit :: rest =>
      if (mark = 'x' ∨ mark = 'X') ∧ digitValue digit < 16 then (16, digit :: rest) else (8, body)
  | '0' :: _ => (8, body)
  | _ => (10, body)

variable {body rest blanks sign numeral : List Char} {negative : Bool} {value : ℕ}

/-- `strtoul` passes over blanks and a sign, chooses the base, and takes the digits. -/
theorem strtoul_eq (text : List Char) : strtoul text =
    let body := text.dropWhile isSpace
    let found := radix (unsigned body)
    let digits := found.2.takeWhile fun char => digitValue char < found.1
    if digits = [] then (0, text)
    else (narrow (body.head? = some '-') (Digits.number found.1 digitValue digits),
      found.2.dropWhile fun char => digitValue char < found.1) := by
  unfold strtoul
  simp only [List.span_eq_takeWhile_dropWhile, Digits.foldl_eq_number]
  by_cases none : ((radix (unsigned (text.dropWhile isSpace))).2.takeWhile fun char =>
      digitValue char < (radix (unsigned (text.dropWhile isSpace))).1) = []
  · exact (if_pos none).trans (if_pos none).symm
  · refine (if_neg none).trans (Eq.trans ?_ (if_neg none).symm)
    unfold narrow
    rw [apply_ite (Prod.mk · _), apply_ite (Prod.mk · _)]
    simp only [decide_eq_true_eq]
    rfl

/-! ## Reading a numeral -/

theorem digitValue_zero : digitValue '0' = 0 := rfl

/-- The digits come behind the blanks, the signs and the null. -/
theorem toNat_of_digit {char : Char} (digit : digitValue char < 36) : 48 ≤ char.toNat := by
  have order : ∀ {low : Char}, low ≤ char → low.toNat ≤ char.toNat := fun le =>
    UInt32.le_iff_toNat_le.mp (Char.le_def.mp le)
  unfold digitValue at digit
  split at digit
  · rename_i inside
    exact order inside.1
  split at digit
  · rename_i inside
    exact Nat.le_trans (by decide) (order inside.1)
  split at digit
  · rename_i inside
    exact Nat.le_trans (by decide) (order inside.1)
  · omega

theorem radix_hexadecimal {mark digit : Char} (marks : mark = 'x' ∨ mark = 'X')
    (hexadecimal : digitValue digit < 16) (rest : List Char) :
    radix ('0' :: mark :: digit :: rest) = (16, digit :: rest) := if_pos ⟨marks, hexadecimal⟩

theorem radix_decimal {first : Char} (nonzero : first ≠ '0') (rest : List Char) :
    radix (first :: rest) = (10, first :: rest) := by
  unfold radix
  split
  · rename_i same
    exact (nonzero (List.head_eq_of_cons_eq same)).elim
  · rename_i same
    exact (nonzero (List.head_eq_of_cons_eq same)).elim
  · rfl

/-- A zero in front is octal, unless it marks a hexadecimal numeral. -/
theorem radix_octal (rest : List Char) : radix ('0' :: rest) = (8, '0' :: rest) ∨
    ∃ mark digit more, rest = mark :: digit :: more ∧ (mark = 'x' ∨ mark = 'X') ∧
      digitValue digit < 16 := by
  unfold radix
  split
  · rename_i mark digit more same
    obtain rfl := (List.cons.inj same).2
    split
    · rename_i marks
      exact .inr ⟨mark, digit, more, rfl, marks⟩
    · exact .inl rfl
  · exact .inl rfl
  · rename_i none
    exact (none rest rfl).elim

/-- **A numeral is read to its end**, when no letter or digit follows it. -/
theorem radix_of_numeral (written : Numeral numeral value)
    (stops : ∀ char ∈ rest.head?, 36 ≤ digitValue char) :
    ∃ base digits, radix (numeral ++ rest) = (base, digits ++ rest) ∧ base ≤ 16 ∧ digits ≠ [] ∧
      (∀ digit ∈ digits, digitValue digit < base) ∧
      Digits.number base digitValue digits = value := by
  cases written with
  | decimal first more nonzero digits =>
      exact ⟨10, first :: more, radix_decimal nonzero _, by decide, List.cons_ne_nil _ _, digits,
        rfl⟩
  | octal more digits =>
      refine ⟨8, '0' :: more, ?_, by decide, List.cons_ne_nil _ _, ?_,
        Digits.number_cons_zero 8 digitValue_zero more⟩
      · rcases radix_octal (more ++ rest) with octal | ⟨mark, digit, after, split, marks, -⟩
        · exact octal
        -- the mark is neither an octal digit nor what may follow
        · have letter : digitValue mark = 33 := by
            rcases marks with rfl | rfl <;> rfl
          cases more with
          | nil =>
              rw [List.nil_append] at split
              have stop := stops mark (by rw [split]; rfl)
              omega
          | cons head more =>
              obtain rfl := (List.cons.inj split).1
              have small := digits head List.mem_cons_self
              omega
      · rw [List.forall_mem_cons, digitValue_zero]
        exact ⟨by decide, digits⟩
  | hexadecimal mark first more marks digits =>
      exact ⟨16, first :: more, radix_hexadecimal marks (digits first List.mem_cons_self) _,
        by decide, List.cons_ne_nil _ _, digits, rfl⟩

/-- **What is read is a numeral.** -/
theorem numeral_of_radix {base : ℕ} {digits : List Char}
    (found : radix body = (base, digits ++ rest)) (some : digits ≠ [])
    (small : ∀ digit ∈ digits, digitValue digit < base) :
    ∃ numeral, body = numeral ++ rest ∧ Numeral numeral (Digits.number base digitValue digits) := by
  obtain ⟨head, tail, rfl⟩ := List.exists_cons_of_ne_nil some
  cases body with
  | nil => cases found
  | cons first more =>
      by_cases zero : first = '0'
      · subst zero
        rcases radix_octal more with octal | ⟨mark, digit, after, rfl, marks, hexadecimal⟩
        · rw [octal] at found
          obtain ⟨rfl, split⟩ := Prod.mk.inj found
          obtain ⟨rfl, rfl⟩ := List.cons.inj split
          refine ⟨'0' :: tail, rfl, ?_⟩
          rw [Digits.number_cons_zero 8 digitValue_zero]
          exact .octal tail (List.forall_mem_cons.mp small).2
        · rw [radix_hexadecimal marks hexadecimal] at found
          obtain ⟨rfl, split⟩ := Prod.mk.inj found
          obtain ⟨rfl, rfl⟩ := List.cons.inj split
          exact ⟨'0' :: mark :: digit :: tail, rfl, .hexadecimal mark digit tail marks small⟩
      · rw [radix_decimal zero] at found
        obtain ⟨rfl, split⟩ := Prod.mk.inj found
        obtain ⟨rfl, rfl⟩ := List.cons.inj split
        exact ⟨first :: tail, rfl, .decimal first tail zero small⟩

/-! ## `strtoul` -/

/-- A numeral begins with a digit. -/
theorem Numeral.exists_digit (written : Numeral numeral value) :
    ∃ digit rest, numeral = digit :: rest ∧ digitValue digit < 10 := by
  cases written with
  | decimal first rest _ digits => exact ⟨first, rest, rfl, digits first List.mem_cons_self⟩
  | octal rest _ => exact ⟨'0', rest, rfl, by decide⟩
  | hexadecimal mark first rest _ _ => exact ⟨'0', mark :: first :: rest, rfl, by decide⟩

theorem Numeral.alphanumeric (written : Numeral numeral value) :
    ∀ char ∈ numeral, digitValue char < 36 := by
  intro char member
  cases written with
  | decimal first rest _ digits => exact (digits char member).trans (by decide)
  | octal rest digits =>
      rcases List.mem_cons.mp member with rfl | later
      · decide
      · exact (digits char later).trans (by decide)
  | hexadecimal mark first rest marks digits =>
      rcases List.mem_cons.mp member with rfl | later
      · decide
      rcases List.mem_cons.mp later with rfl | later
      · rcases marks with rfl | rfl <;> decide
      · exact (digits char later).trans (by decide)

theorem not_isSpace_of_digit {char : Char} (digit : digitValue char < 36) : ¬ isSpace char := by
  have bound := toNat_of_digit digit
  unfold isSpace
  rw [decide_eq_true_eq]
  omega

theorem ne_of_digit {char other : Char} (digit : digitValue char < 36) (low : other.toNat < 48) :
    char ≠ other := by
  rintro rfl
  exact Nat.not_lt.mpr (toNat_of_digit digit) low

/-- What follows the blanks and the sign of a numeral is the numeral. -/
theorem body_of_sign (blank : ∀ char ∈ blanks, isSpace char) (signed : Sign sign negative)
    (written : Numeral numeral value) (rest : List Char) :
    (blanks ++ sign ++ numeral ++ rest).dropWhile isSpace = sign ++ numeral ++ rest ∧
      unsigned (sign ++ numeral ++ rest) = numeral ++ rest ∧
      ((sign ++ numeral ++ rest).head? = some '-' ↔ negative = true) := by
  obtain ⟨digit, more, rfl, isDigit⟩ := written.exists_digit
  have small : digitValue digit < 36 := isDigit.trans (by decide)
  have minus : digit ≠ '-' := ne_of_digit small (by decide)
  have plus : digit ≠ '+' := ne_of_digit small (by decide)
  have visible : ∀ char ∈ (sign ++ digit :: more ++ rest).head?, ¬ isSpace char := by
    intro char first
    cases signed with
    | none =>
        cases first
        exact not_isSpace_of_digit small
    | plus =>
        cases first
        decide
    | minus =>
        cases first
        decide
  refine ⟨?_, ?_⟩
  · rw [List.append_assoc, List.append_assoc, ← List.append_assoc sign]
    exact Digits.dropWhile_append blank visible
  · unfold unsigned
    cases signed <;> simp [minus, plus]

/-- **Numerals are accepted.** -/
theorem strtoul_of_numeral (blank : ∀ char ∈ blanks, isSpace char) (signed : Sign sign negative)
    (written : Numeral numeral value) (stops : ∀ char ∈ rest.head?, 36 ≤ digitValue char) :
    strtoul (blanks ++ sign ++ numeral ++ rest) = (narrow negative value, rest) := by
  obtain ⟨passed, body, minus⟩ := body_of_sign blank signed written rest
  obtain ⟨base, digits, found, small, some, each, rfl⟩ := radix_of_numeral written stops
  have taken : ∀ digit ∈ digits, decide (digitValue digit < base) = true :=
    fun digit member => decide_eq_true (each digit member)
  have ends : ∀ char ∈ rest.head?, ¬ decide (digitValue char < base) = true := by
    intro char first
    have stop := stops char first
    rw [decide_eq_true_eq]
    omega
  rw [strtoul_eq, passed]
  dsimp only
  rw [body, found]
  dsimp only
  rw [Digits.takeWhile_append taken ends, Digits.dropWhile_append taken ends, if_neg some]
  simp only [minus, Bool.decide_eq_true]

/-- A text may begin with a sign. -/
theorem exists_sign (body : List Char) :
    ∃ sign negative, Sign sign negative ∧ body = sign ++ unsigned body := by
  unfold unsigned
  split
  · rename_i signed
    rcases signed with minus | plus
    · obtain ⟨rest, rfl⟩ := List.head?_eq_some_iff.mp minus
      exact ⟨['-'], true, .minus, rfl⟩
    · obtain ⟨rest, rfl⟩ := List.head?_eq_some_iff.mp plus
      exact ⟨['+'], false, .plus, rfl⟩
  · exact ⟨[], false, .none, rfl⟩

/-- **What is accepted is a numeral**, perhaps after blanks and a sign; otherwise `strtoul`
stops before the text. -/
theorem strtoul_cases (text : List Char) : strtoul text = (0, text) ∨
    ∃ blanks sign negative numeral value, (∀ char ∈ blanks, isSpace char) ∧ Sign sign negative ∧
      Numeral numeral value ∧ text = blanks ++ sign ++ numeral ++ (strtoul text).2 := by
  obtain ⟨sign, negative, signed, body⟩ := exists_sign (text.dropWhile isSpace)
  rcases found : radix (unsigned (text.dropWhile isSpace)) with ⟨base, digits⟩
  rw [strtoul_eq]
  dsimp only
  rw [found]
  dsimp only
  by_cases none : (digits.takeWhile fun char => digitValue char < base) = []
  · exact .inl (if_pos none)
  · rw [if_neg none]
    rw [← List.takeWhile_append_dropWhile (p := fun char => decide (digitValue char < base))
      (l := digits)] at found
    obtain ⟨numeral, split, written⟩ := numeral_of_radix found none fun digit member => by
      simpa using List.mem_takeWhile_imp member
    refine .inr ⟨text.takeWhile isSpace, sign, negative, numeral, _,
      fun _ member => List.mem_takeWhile_imp member, signed, written, ?_⟩
    rw [List.append_assoc, List.append_assoc, ← split, ← body, List.takeWhile_append_dropWhile]

/-! ## The port -/

/-- The text as `c_str` shows it: up to its first null. -/
def cStr (text : List Char) : List Char := text.takeWhile (· ≠ Char.ofNat 0)

/-- What `strtoul` reads to the end: nothing, or a numeral, perhaps after blanks and a sign. -/
def ReadsToEnd (text : List Char) : Prop :=
  text = [] ∨ ∃ blanks sign negative numeral value, (∀ char ∈ blanks, isSpace char) ∧
    Sign sign negative ∧ Numeral numeral value ∧ text = blanks ++ sign ++ numeral

/-- What comes before the end of a numeral is no null. -/
theorem ne_null_of_accepted (blank : ∀ char ∈ blanks, isSpace char) (signed : Sign sign negative)
    (written : Numeral numeral value) :
    ∀ char ∈ blanks ++ sign ++ numeral, decide (char ≠ Char.ofNat 0) = true := by
  intro char member
  rw [decide_eq_true_eq]
  rcases List.mem_append.mp member with front | inside
  · rcases List.mem_append.mp front with before | here
    · rintro rfl
      exact absurd (blank _ before) (by decide)
    · rintro rfl
      cases signed <;> exact absurd here (by decide)
  · exact ne_of_digit (written.alphanumeric char inside) (by decide)

theorem headD_eq_iff {char : Char} {text : List Char} :
    text.headD char = char ↔ ∀ first ∈ text.head?, first = char := by
  cases text <;> simp

/-- **When `strtoul` reaches the end of the text.** -/
theorem strtoul_ends_iff (text : List Char) :
    (strtoul text).2.headD (Char.ofNat 0) = Char.ofNat 0 ↔ ReadsToEnd (cStr text) := by
  have split : text = cStr text ++ text.dropWhile (· ≠ Char.ofNat 0) :=
    List.takeWhile_append_dropWhile.symm
  have null : ∀ first ∈ (text.dropWhile (· ≠ Char.ofNat 0)).head?, first = Char.ofNat 0 := by
    intro first here
    have stop := Digits.not_head_dropWhile _ text first here
    simpa using stop
  constructor
  · intro ends
    rw [headD_eq_iff] at ends
    rcases strtoul_cases text with nothing | ⟨blanks, sign, negative, numeral, value, blank, signed,
      written, whole⟩
    · rw [nothing] at ends
      have empty : cStr ([] ++ text) = [] := by
        refine Digits.takeWhile_append (List.forall_mem_nil _) fun first here => ?_
        simpa using ends first here
      exact .inl empty
    · refine .inr ⟨blanks, sign, negative, numeral, value, blank, signed, written, ?_⟩
      rw [cStr, whole]
      refine Digits.takeWhile_append (ne_null_of_accepted blank signed written)
        fun first here => ?_
      simpa using ends first here
  · rintro (nothing | ⟨blanks, sign, negative, numeral, value, blank, signed, written, whole⟩)
    · rw [nothing, List.nil_append] at split
      rcases strtoul_cases text with same | ⟨blanks, sign, negative, numeral, value, blank, signed,
        written, whole⟩
      · rw [same, split, headD_eq_iff]
        exact null
      · obtain ⟨digit, more, rfl, -⟩ := written.exists_digit
        rw [cStr, whole, List.takeWhile_append_of_pos (ne_null_of_accepted blank signed written)]
          at nothing
        simp at nothing
    · rw [whole] at split
      rw [split, strtoul_of_numeral blank signed written fun first here => ?_, headD_eq_iff]
      · exact null
      · rw [null first here]
        decide

/-- The text is a numeral for a port. -/
def Port (strPort : List Char) (port : ℕ) : Prop :=
  Numeral strPort port ∧ 1 ≤ port ∧ port ≤ 65535

/-- A port is read to the end, and `unsigned int` holds it. -/
theorem Port.reads {strPort : List Char} {port : ℕ} (isPort : Port strPort port) :
    strtoul strPort = (UInt64.ofNat port, []) ∧ (UInt64.ofNat port).toUInt32.toNat = port := by
  obtain ⟨written, -, upper⟩ := isPort
  have read : strtoul ([] ++ [] ++ strPort ++ []) = (narrow false port, []) :=
    strtoul_of_numeral (List.forall_mem_nil _) .none written (by simp)
  rw [List.append_nil, List.nil_append, List.nil_append, narrow, if_neg (by omega)] at read
  refine ⟨read, ?_⟩
  rw [UInt64.toNat_toUInt32, UInt64.toNat_ofNat']
  omega

namespace Devourer

variable {dst : String} {host strPort : List Char} {this : Devourer}

/-- Where the first colon parts the text. -/
theorem span_colon (first : ':' ∉ host) (stops : ∀ char ∈ rest.head?, char = ':') :
    (host ++ rest).span (· ≠ ':') = (host, rest) := by
  have taken : ∀ char ∈ host, decide (char ≠ ':') = true := by
    intro char member
    rw [decide_eq_true_eq]
    rintro rfl
    exact first member
  have ends : ∀ char ∈ rest.head?, ¬ decide (char ≠ ':') = true := by
    intro char here
    simpa using stops char here
  rw [List.span_eq_takeWhile_dropWhile, Digits.takeWhile_append taken ends,
    Digits.dropWhile_append taken ends]

theorem setdstFluentd_host (plain : ':' ∉ dst.toList) (this : Devourer) :
    this.setdstFluentd dst = ⟨[], some (this.addDestination (.forward dst none))⟩ := by
  have whole : (dst.toList ++ []).span (· ≠ ':') = (dst.toList, []) := span_colon plain (by simp)
  rw [List.append_nil] at whole
  unfold setdstFluentd
  rw [whole]
  rfl

theorem setdstFluentd_port (split : dst.toList = host ++ ':' :: strPort) (first : ':' ∉ host)
    (this : Devourer) : this.setdstFluentd dst =
      if (strtoul strPort).2.headD (Char.ofNat 0) = Char.ofNat 0 then
        ⟨[], some (this.addDestination
          (.forward (String.ofList host) (some (strtoul strPort).1.toUInt32)))⟩
      else ⟨[.threw ("Invalid port number: " ++ String.ofList strPort)], some this⟩ := by
  unfold setdstFluentd
  rw [split, span_colon first (by simp)]
  by_cases ends : (strtoul strPort).2.headD (Char.ofNat 0) = Char.ofNat 0
  · rw [if_pos ends]
    exact if_neg (not_not_intro ends)
  · rw [if_neg ends]
    exact if_pos ends

/-- A destination without a colon is a host with the default port. Behind the first colon
stands exactly the port; if nothing does that is one, nothing is registered. -/
structure RegistersExactly (dst : String) (this : Devourer) : Prop where
  host : ':' ∉ dst.toList →
    this.setdstFluentd dst = ⟨[], some (this.addDestination (.forward dst none))⟩
  port : ∀ host strPort port, dst.toList = host ++ ':' :: strPort → ':' ∉ host →
    Port strPort port → ∃ number : UInt32, number.toNat = port ∧ this.setdstFluentd dst =
      ⟨[], some (this.addDestination (.forward (String.ofList host) (some number)))⟩
  other : ∀ host strPort, dst.toList = host ++ ':' :: strPort → ':' ∉ host →
    (∀ port, ¬ Port strPort port) →
      ∃ errmsg, this.setdstFluentd dst = ⟨[.threw errmsg], some this⟩

/-- **When a destination is registered exactly as it is written**: if and only if what
`strtoul` reads to the end behind the first colon, as `c_str` shows it, is a port. -/
theorem registers_exactly_iff (dst : String) (this : Devourer) : RegistersExactly dst this ↔
    ∀ host strPort, dst.toList = host ++ ':' :: strPort → ':' ∉ host →
      ReadsToEnd (cStr strPort) → ∃ port, Port strPort port := by
  constructor
  · intro exactly host strPort split first ends
    by_contra noPort
    obtain ⟨errmsg, thrown⟩ := exactly.other host strPort split first (not_exists.mp noPort)
    rw [setdstFluentd_port split first, if_pos ((strtoul_ends_iff strPort).mpr ends)] at thrown
    cases thrown
  · intro proper
    refine ⟨fun plain => setdstFluentd_host plain this,
      fun host strPort port split first isPort => ?_, fun host strPort split first noPort => ?_⟩
    · obtain ⟨read, number⟩ := isPort.reads
      refine ⟨_, number, ?_⟩
      rw [setdstFluentd_port split first, read]
      exact if_pos rfl
    · refine ⟨_, (setdstFluentd_port split first this).trans (if_neg fun ends => ?_)⟩
      obtain ⟨port, isPort⟩ :=
        proper host strPort split first ((strtoul_ends_iff strPort).mp ends)
      exact noPort port isPort

/-- The port of `fluentd`, and 2 to the 32. -/
def wrappedPort : String := "localhost:4294991520"

/-- **A port beyond 32 bits is registered as another.** -/
theorem wrappedPort_not_exact : ∃ this, Devourer.new sampleNetDec 0 0 = some this ∧
    ¬ RegistersExactly wrappedPort this ∧ this.setdstFluentd wrappedPort =
      ⟨[], some (this.addDestination (.forward "localhost" (some 24224)))⟩ := by
  have succeeds : (Devourer.new sampleNetDec 0 0).isSome := by decide
  obtain ⟨this, built⟩ := Option.isSome_iff_exists.mp succeeds
  have split : wrappedPort.toList = "localhost".toList ++ ':' :: "4294991520".toList := by decide
  have first : ':' ∉ "localhost".toList := by decide
  have read : strtoul "4294991520".toList = (4294991520, []) := by decide +kernel
  have registered := setdstFluentd_port split first this
  rw [read] at registered
  have noPort : ∀ port, ¬ Port "4294991520".toList port := by
    intro port isPort
    have same : (UInt64.ofNat port).toNat = 4294991520 :=
      congrArg (fun found => found.1.toNat) (isPort.reads.1.symm.trans read)
    have upper := isPort.2.2
    rw [UInt64.toNat_ofNat'] at same
    omega
  refine ⟨this, built, fun exactly => ?_, registered⟩
  obtain ⟨errmsg, thrown⟩ := exactly.other _ _ split first noPort
  cases registered.symm.trans thrown

end Devourer

end Devourer
