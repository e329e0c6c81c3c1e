import Devourer.Apps.CommandLine
import Devourer.Destination

/-! # What the options of a command line do to the values

The value of a destination is what the last use for it assigned, what was appended to it stands
in the order of the uses, and a counter holds the number of its uses (`values_of_act`).
-/

namespace Optparse

open Devourer

/-! ## Counters -/

/-- A digit of a numeral that is printed. -/
theorem digit_of_toDigits {n : ℕ} {char : Char} (member : char ∈ Nat.toDigits 10 n) :
    digitValue char < 10 ∧ digitValue char = char.toNat - '0'.toNat := by
  have digit := Nat.isDigit_of_mem_toDigits (by decide) (by decide) member
  have within : '0' ≤ char ∧ char ≤ '9' := by
    unfold Char.isDigit at digit
    simpa [Char.le_def] using digit
  unfold digitValue
  rw [if_pos within]
  have upper : char.toNat ≤ 57 := UInt32.le_iff_toNat_le.mp (Char.le_def.mp within.2)
  exact ⟨by omega, rfl⟩

/-- The digits that are printed are read back. -/
theorem foldl_toDigits (n : ℕ) : (Nat.toDigits 10 n).foldl
    (fun value digit => 10 * value + digitValue digit) 0 = n := by
  refine Eq.trans ?_ (Nat.ofDigitChars_ten_toDigits (n := n))
  rw [Nat.ofDigitChars_eq_foldl]
  apply List.foldl_ext
  intro value digit member
  rw [(digit_of_toDigits member).2]

theorem extract_toDigits (n : ℕ) : extract 32 (Nat.toDigits 10 n) =
    if n < 2 ^ 31 then ((n : ℤ), true) else (2 ^ 31 - 1, false) := by
  have digits : ∀ char ∈ Nat.toDigits 10 n, digitValue char < 36 := fun char member =>
    (digit_of_toDigits member).1.trans (by decide)
  have value := foldl_toDigits n
  have taken : (Nat.toDigits 10 n).takeWhile (fun char => digitValue char < 10) =
      Nat.toDigits 10 n :=
    List.takeWhile_eq_self_iff.mpr fun char member => decide_eq_true (digit_of_toDigits member).1
  have printed : Nat.toDigits 10 n ≠ [] := Nat.toDigits_ne_nil
  generalize Nat.toDigits 10 n = text at digits value taken printed
  obtain ⟨first, rest, rfl⟩ := List.exists_cons_of_ne_nil printed
  have digit := digits first List.mem_cons_self
  have minus : ¬ (first :: rest).head? = some '-' := fun sign =>
    ne_of_digit digit (by decide) (Option.some.inj sign)
  have unsigned : ¬ ((first :: rest).head? = some '-' ∨ (first :: rest).head? = some '+') := by
    rintro (sign | sign)
    · exact minus sign
    · exact ne_of_digit digit (by decide) (Option.some.inj sign)
  unfold extract
  rw [List.dropWhile_cons_of_neg (not_isSpace_of_digit digit)]
  dsimp only
  rw [if_neg unsigned, taken, value, if_neg minus, if_neg printed, if_neg (by omega)]
  by_cases small : n < 2 ^ 31
  · rw [if_pos small, if_neg (by omega)]
  · rw [if_neg small, if_pos (by omega)]

/-- A numeral is not blank. -/
theorem dropWhile_toDigits (n : ℕ) : (Nat.toDigits 10 n).dropWhile isSpace ≠ [] := by
  have digits : ∀ char ∈ Nat.toDigits 10 n, digitValue char < 36 := fun char member =>
    (digit_of_toDigits member).1.trans (by decide)
  obtain ⟨first, rest, printed⟩ := List.exists_cons_of_ne_nil (Nat.toDigits_ne_nil (n := n))
  rw [printed] at digits ⊢
  rw [List.dropWhile_cons_of_neg (not_isSpace_of_digit (digits first List.mem_cons_self))]
  exact List.cons_ne_nil first rest

/-- A counter goes up by one as long as an `int` holds it. -/
theorem strInc_toDigits (n : ℕ) : strInc (Nat.toDigits 10 n) =
    if n + 1 < 2 ^ 31 then some (Nat.toDigits 10 (n + 1)) else none := by
  unfold strInc
  dsimp only
  rw [if_pos Nat.toDigits_ne_nil, extract_toDigits]
  have printed := dropWhile_toDigits n
  by_cases small : n < 2 ^ 31
  · rw [if_pos small]
    by_cases fits : n + 1 < 2 ^ 31
    · rw [if_pos fits, if_pos ⟨printed, by omega⟩]
      exact congrArg some Nat.toList_repr
    · rw [if_neg fits, if_neg fun both => fits (by omega)]
  · rw [if_neg small, if_neg fun both => absurd both.2 (by omega), if_neg (by omega)]

/-- The value of a counter; there is none before the first use. -/
def counter (n : ℕ) : Option Text := if n = 0 then none else some (Nat.toDigits 10 n)

theorem strInc_counter {n : ℕ} {text : Text}
    (increased : strInc ((counter n).getD []) = some text) : counter (n + 1) = some text := by
  unfold counter at increased ⊢
  rw [if_neg (Nat.succ_ne_zero n), ← increased]
  by_cases zero : n = 0
  · subst zero
    decide
  · rw [if_neg zero, Option.getD_some, strInc_toDigits] at increased ⊢
    split
    · rfl
    · rename_i overflows
      rw [if_neg overflows] at increased
      cases increased

/-! ## One use -/

variable {use : Use} {uses : List Use} {values after : Values} {d : Text}

namespace Use

/-- What a use assigns to the destination, besides counting. -/
def assigns (d : Text) (this : Use) : Option Text :=
  if this.option.dest = d then
    match this.option.action with
    | .store | .append => some this.value
    | .storeConst | .appendConst => some this.option.getConst
    | .storeTrue => some "1".toList
    | .storeFalse => some "0".toList
    | .count | .help | .version | .callback => none
  else none

/-- What a use appends to the destination. -/
def pushes (d : Text) (this : Use) : Option Text :=
  if this.option.dest = d then
    match this.option.action with
    | .append => some this.value
    | .appendConst => some this.option.getConst
    | _ => none
  else none

/-- The use counts for the destination. -/
def Counts (d : Text) (this : Use) : Prop := this.option.dest = d ∧ this.option.action = .count

/-- The use is the user's for the destination. -/
def Sets (d : Text) (this : Use) : Prop := this.option.dest = d ∧ this.option.action ≠ .callback

/-- What a use does to the values. -/
structure Does (use : Use) (values after : Values) : Prop where
  map : ∀ d, ¬ use.Counts d → after.map.lookup d = (use.assigns d).or (values.map.lookup d)
  counted : ∀ d, use.Counts d →
    ∃ text, strInc (values.get d) = some text ∧ after.map.lookup d = some text
  all : ∀ d, after.all d = values.all d ++ (use.pushes d).toList
  userSet : ∀ d, d ∈ after.userSet ↔ d ∈ values.userSet ∨ use.Sets d

end Use

theorem lookup_store (dest value d : Text) (values : Values) :
    (values.store dest value).map.lookup d =
      if dest = d then some value else values.map.lookup d := by
  change (values.map.insert dest value).lookup d = _
  by_cases same : dest = d
  · subst same
    rw [if_pos rfl]
    exact AList.lookup_insert _
  · rw [if_neg same]
    exact AList.lookup_insert_ne (Ne.symm same)

theorem mem_userSet_store (dest value d : Text) (values : Values) :
    d ∈ (values.store dest value).userSet ↔ d ∈ values.userSet ∨ dest = d := by
  change d ∈ insert dest values.userSet ↔ _
  rw [Finset.mem_insert, or_comm, eq_comm]

theorem all_push (dest value d : Text) (values : Values) :
    (values.push dest value).all d = values.all d ++ if dest = d then [value] else [] := by
  change (AList.lookup d (values.appendMap.insert dest _)).getD [] = _
  by_cases same : dest = d
  · subst same
    rw [AList.lookup_insert, if_pos rfl]
    rfl
  · rw [AList.lookup_insert_ne (Ne.symm same), if_neg same, List.append_nil]
    rfl

namespace Use

/-- A use that stores a value and pushes none. -/
theorem Does.of_store {value : Text} (keeps : use.option.action ≠ .callback)
    (assigned : ¬ use.option.action = .count → use.assigns use.option.dest = some value)
    (counted : use.option.action = .count → strInc (values.get use.option.dest) = some value)
    (pushed : use.pushes use.option.dest = none) :
    use.Does values (values.store use.option.dest value) where
  map := by
    intro d counts
    rw [lookup_store]
    by_cases same : use.option.dest = d
    · subst same
      rw [if_pos rfl, assigned fun count => counts ⟨rfl, count⟩]
      rfl
    · rw [if_neg same, assigns, if_neg same, Option.none_or]
  counted := by
    rintro _ ⟨rfl, count⟩
    exact ⟨value, counted count, (lookup_store ..).trans (if_pos rfl)⟩
  all := by
    intro d
    have none : use.pushes d = none := by
      by_cases same : use.option.dest = d
      · rw [← same, pushed]
      · exact if_neg same
    rw [none]
    exact (List.append_nil _).symm
  userSet := by
    intro d
    rw [mem_userSet_store]
    exact or_congr_right ⟨fun same => ⟨same, keeps⟩, And.left⟩

/-- A use that stores a value and pushes it. -/
theorem Does.of_push {value : Text} (keeps : use.option.action ≠ .callback)
    (count : use.option.action ≠ .count) (assigned : use.assigns use.option.dest = some value)
    (pushed : use.pushes use.option.dest = some value) :
    use.Does values ((values.store use.option.dest value).push use.option.dest value) where
  map := by
    intro d _
    refine (lookup_store ..).trans ?_
    by_cases same : use.option.dest = d
    · subst same
      rw [if_pos rfl, assigned]
      rfl
    · rw [if_neg same, assigns, if_neg same, Option.none_or]
  counted := fun _ counts => (count counts.2).elim
  all := by
    intro d
    rw [all_push]
    congr 1
    by_cases same : use.option.dest = d
    · subst same
      rw [if_pos rfl, pushed]
      rfl
    · rw [if_neg same, pushes, if_neg same]
      rfl
  userSet := by
    intro d
    refine (mem_userSet_store use.option.dest value d values).trans ?_
    exact or_congr_right ⟨fun same => ⟨same, keeps⟩, And.left⟩

/-- **One use.** -/
theorem does_of_act (acts : use.act values = .ok after) : use.Does values after := by
  obtain ⟨option, opt, value⟩ := use
  obtain ⟨action, type, dest, getDefault, nargs, getConst, choices⟩ := option
  unfold act processOpt at acts
  cases action with
  | store =>
      dsimp only at acts
      split at acts
      · cases acts
      · cases acts
        exact .of_store nofun (fun _ => if_pos rfl) nofun (if_pos rfl)
  | append =>
      dsimp only at acts
      split at acts
      · cases acts
      · cases acts
        exact .of_push nofun nofun (if_pos rfl) (if_pos rfl)
  | storeConst | storeTrue | storeFalse =>
      cases acts
      exact .of_store nofun (fun _ => if_pos rfl) nofun (if_pos rfl)
  | appendConst =>
      cases acts
      exact .of_push nofun nofun (if_pos rfl) (if_pos rfl)
  | count =>
      dsimp only at acts
      split at acts
      · cases acts
      · rename_i counted
        cases acts
        exact .of_store nofun (fun other => (other rfl).elim) (fun _ => counted) (if_pos rfl)
  | help => cases acts
  | version => cases acts
  | callback =>
      cases acts
      refine ⟨fun d _ => ?_, nofun, fun d => ?_, fun d => ?_⟩
      · have none : assigns d ⟨⟨.callback, type, dest, getDefault, nargs, getConst, choices⟩, opt,
            value⟩ = none := ite_self _
        rw [none]
        rfl
      · have none : pushes d ⟨⟨.callback, type, dest, getDefault, nargs, getConst, choices⟩, opt,
            value⟩ = none := ite_self _
        rw [none]
        exact (List.append_nil _).symm
      · exact (or_iff_left fun sets => sets.2 rfl).symm

end Use

/-! ## All uses -/

theorem act_concat (use : Use) (uses : List Use) (values : Values) :
    act (uses ++ [use]) values = act uses values >>= use.act := by
  unfold act
  rw [List.foldlM_append]
  congr 1
  funext values
  exact bind_pure _

/-- **What the values are** after the uses of a line: what the last use assigned, where no use
counts; the number of uses where all count; and all that was appended. -/
theorem values_of_act (uses : List Use) (values after : Values) (acts : act uses values = .ok after)
    (d : Text) :
    ((∀ use ∈ uses, ¬ use.Counts d) → after.map.lookup d =
        (uses.filterMap (Use.assigns d)).getLast?.or (values.map.lookup d)) ∧
      ((∀ use ∈ uses, use.option.dest = d → use.Counts d) → values.map.lookup d = none →
        after.map.lookup d = counter (uses.countP fun use => use.option.dest = d)) ∧
      after.all d = values.all d ++ uses.filterMap (Use.pushes d) ∧
      (d ∈ after.userSet ↔ d ∈ values.userSet ∨ ∃ use ∈ uses, use.Sets d) := by
  induction uses using List.reverseRecOn generalizing after with
  | nil =>
      cases acts
      refine ⟨fun _ => rfl, fun _ unset => ?_, (List.append_nil _).symm, ?_⟩
      · exact unset
      · exact (or_iff_left nofun).symm
  | append_singleton uses use ih =>
      rw [act_concat] at acts
      cases before : act uses values with
      | error exit =>
          rw [before] at acts
          cases acts
      | ok middle =>
          rw [before] at acts
          obtain ⟨assigned, counted, pushed, set⟩ := ih middle before
          have does := Use.does_of_act acts
          refine ⟨fun none => ?_, fun each unset => ?_, ?_, ?_⟩
          · rw [List.forall_mem_append, List.forall_mem_singleton] at none
            rw [does.map d none.2, assigned none.1, List.filterMap_append, ← Option.or_assoc]
            congr 1
            cases assigns : use.assigns d with
            | none => simp [assigns]
            | some value => simp [assigns]
          · rw [List.forall_mem_append, List.forall_mem_singleton] at each
            have counted := counted each.1 unset
            rw [List.countP_append, List.countP_singleton]
            by_cases same : use.option.dest = d
            · obtain ⟨text, increased, now⟩ := does.counted d (each.2 same)
              rw [Values.get, counted] at increased
              rw [now, if_pos (decide_eq_true same), strInc_counter increased]
            · have idle : use.assigns d = none := if_neg same
              rw [if_neg (by simp [same]), does.map d fun counts => same counts.1, idle, counted]
              rfl
          · rw [does.all, pushed, List.filterMap_append, List.append_assoc]
            cases pushes : use.pushes d with
            | none => simp [pushes]
            | some value => simp [pushes]
          · rw [does.userSet, set, or_assoc]
            simp only [List.mem_append, List.mem_singleton, or_and_right, exists_or,
              exists_eq_left]

instance (d : Text) (use : Use) : Decidable (use.Counts d) := inferInstanceAs (Decidable (_ ∧ _))

/-- Two uses of a counter and two of an option that collects. -/
def sampleUses : List Use :=
  let verbose : Opt := { Opt.new.setAction .count with dest := "verbose".toList }
  let path : Opt := { Opt.new.setAction .append with dest := "path".toList }
  [⟨verbose, "-v".toList, []⟩, ⟨path, "-I".toList, "a".toList⟩, ⟨verbose, "-v".toList, []⟩,
    ⟨path, "-I".toList, "b".toList⟩]

theorem values_of_act_sample : ∃ after, act sampleUses .empty = .ok after ∧
    after.map.lookup "verbose".toList = some "2".toList ∧
    after.map.lookup "path".toList = some "b".toList ∧
    after.all "path".toList = ["a".toList, "b".toList] := by
  have succeeds : (act sampleUses .empty).isOk = true := by decide
  cases acts : act sampleUses .empty with
  | error exit =>
      rw [acts] at succeeds
      cases succeeds
  | ok after =>
      have verbose := values_of_act sampleUses .empty after acts "verbose".toList
      have path := values_of_act sampleUses .empty after acts "path".toList
      exact ⟨after, rfl, verbose.2.1 (by decide) rfl, path.1 (by decide), path.2.2.1⟩

end Optparse
