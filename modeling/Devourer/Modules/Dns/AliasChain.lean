import Devourer.Modules.Dns.Resolution

/-! # Chains of aliases

A response may lead from the name that was asked for through several aliases to an
address. `recv` looks for a record that has the answer's own name as its alias, and
stores the answer only if there is none. A chain is therefore stored whole exactly
when each alias comes before the one that leads to it, and only then does the
address resolve to the name that was asked for.
-/

namespace Devourer

namespace ModDns

/-- Names that lead from one to the next, and an address of the last one. -/
structure AliasChain where
  length : ℕ
  name : ℕ → String
  link : ℕ → AnswerRecord
  address : AnswerRecord
  positive : 1 ≤ length
  short : length ≤ 32
  distinct : ∀ i ≤ length, ∀ j ≤ length, name i = name j → i = j
  named : ∀ i ≤ length, name i ≠ ""
  isAlias : ∀ i < length, IsAlias (link i)
  linkName : ∀ i < length, (link i).name = name i
  linkData : ∀ i < length, (link i).data = name (i + 1)
  isAddress : IsAddress address
  addressName : address.name = name length
  size : address.ptr.length = 4 ∨ address.ptr.length = 16

/-- The records of the chain, as an answer may carry them in any order. -/
def AliasChain.answers (chain : AliasChain) : List AnswerRecord :=
  chain.address :: (List.range chain.length).map chain.link

/-- No live record mentions the address or a name of the chain. -/
structure AliasChain.Unmentioned (chain : AliasChain) (this : ModDns) : Prop where
  addrs : ∀ id slot name addr, this.HasAddr id slot name addr →
    addr ≠ chain.address.ptr ∧ ∀ i ≤ chain.length, name ≠ chain.name i
  aliases : ∀ id slot name target, this.HasAlias id slot name target →
    ∀ i ≤ chain.length, name ≠ chain.name i ∧ target ≠ chain.name i

/-- The answers with aliases. -/
def aliases (answers : List AnswerRecord) : List AnswerRecord :=
  answers.filter fun answer => IsAlias answer

theorem mem_aliases {answer : AnswerRecord} {answers : List AnswerRecord} :
    answer ∈ aliases answers ↔ answer ∈ answers ∧ IsAlias answer := by
  unfold aliases
  rw [List.mem_filter, decide_eq_true_eq]

theorem aliases_cons_of_isAlias {answer : AnswerRecord} (isAlias : IsAlias answer)
    (rest : List AnswerRecord) : aliases (answer :: rest) = answer :: aliases rest :=
  List.filter_cons_of_pos (decide_eq_true isAlias)

theorem aliases_cons_of_not_isAlias {answer : AnswerRecord} (other : ¬ IsAlias answer)
    (rest : List AnswerRecord) : aliases (answer :: rest) = aliases rest :=
  List.filter_cons_of_neg (by rwa [decide_eq_true_eq])

/-- Each alias comes before the one that leads to it: none comes after a record
whose target is its name. -/
def BackToFront (answers : List AnswerRecord) : Prop :=
  (aliases answers).Pairwise fun earlier later => later.name ≠ earlier.data

instance (answers : List AnswerRecord) : Decidable (BackToFront answers) :=
  inferInstanceAs (Decidable (List.Pairwise _ _))

/-! ## Which aliases are stored -/

/-- The aliases stored of those answers, after the given ones. -/
def stored : List AnswerRecord → List AnswerRecord → List AnswerRecord
  | acc, [] => acc
  | acc, answer :: rest =>
      if ∃ earlier ∈ acc, earlier.data = answer.name then stored acc rest
      else stored (acc ++ [answer]) rest

theorem mem_stored_of_mem {acc answers : List AnswerRecord} {answer : AnswerRecord}
    (member : answer ∈ acc) : answer ∈ stored acc answers := by
  induction answers generalizing acc with
  | nil => exact member
  | cons next rest ih =>
      unfold stored
      split
      · exact ih member
      · exact ih (List.mem_append_left _ member)

theorem mem_of_mem_stored {acc answers : List AnswerRecord} {answer : AnswerRecord}
    (member : answer ∈ stored acc answers) : answer ∈ acc ∨ answer ∈ answers := by
  induction answers generalizing acc with
  | nil => exact .inl member
  | cons next rest ih =>
      unfold stored at member
      split at member
      · exact (ih member).imp_right (List.mem_cons_of_mem next)
      · rcases ih member with early | late
        · rcases List.mem_append.mp early with early | here
          · exact .inl early
          · exact .inr (List.mem_singleton.mp here ▸ List.mem_cons_self)
        · exact .inr (List.mem_cons_of_mem next late)

/-- All of different answers are stored exactly when none comes after one that leads
to it. -/
theorem all_stored_iff {acc answers : List AnswerRecord} (nodup : (acc ++ answers).Nodup)
    (ordered : acc.Pairwise fun earlier later => later.name ≠ earlier.data) :
    (∀ answer ∈ answers, answer ∈ stored acc answers) ↔
      (acc ++ answers).Pairwise fun earlier later => later.name ≠ earlier.data := by
  induction answers generalizing acc with
  | nil =>
      rw [List.append_nil]
      exact ⟨fun _ => ordered, fun _ => nofun⟩
  | cons answer rest ih =>
      have fresh : answer ∉ acc ++ rest := by
        have moved := List.perm_middle.nodup_iff.mp nodup
        exact (List.nodup_cons.mp moved).1
      by_cases led : ∃ earlier ∈ acc, earlier.data = answer.name
      · -- the answer is skipped, and nothing stores it later
        constructor
        · intro all
          have found := all answer List.mem_cons_self
          rw [stored, if_pos led] at found
          exact (fresh (List.mem_append.mpr (mem_of_mem_stored found))).elim
        · intro pairwise
          obtain ⟨earlier, member, leads⟩ := led
          have apart := (List.pairwise_append.mp pairwise).2.2 earlier member answer
            List.mem_cons_self
          exact (apart leads.symm).elim
      · have extended : (acc ++ [answer]).Pairwise fun earlier later =>
            later.name ≠ earlier.data := by
          apply List.pairwise_append.mpr
          refine ⟨ordered, List.pairwise_singleton _ _, fun earlier member later here => ?_⟩
          rw [List.mem_singleton.mp here]
          exact fun leads => led ⟨earlier, member, leads.symm⟩
        have split : acc ++ answer :: rest = acc ++ [answer] ++ rest := by
          rw [List.append_assoc, List.singleton_append]
        rw [split] at nodup ⊢
        rw [← ih nodup extended, stored, if_neg led, List.forall_mem_cons]
        exact and_iff_right (mem_stored_of_mem (List.mem_append_right _ List.mem_cons_self))

/-- Some live record holds the alias. -/
def Known (this : ModDns) (name target : String) : Prop :=
  ∃ id slot, this.HasAlias id slot name target

theorem known_addAddress {this after : ModDns} (kept : this.Kept) {ts : ℤ}
    {answer : AnswerRecord} (added : this.addAddress ts answer = some after)
    (name target : String) : after.Known name target ↔ this.Known name target := by
  obtain ⟨-, -, same, -⟩ := kept.addAddress added
  unfold Known HasAlias
  rw [same]

/-- Storing an alias makes it known, unless its name is known as an alias. -/
theorem known_addCName {this : ModDns} (kept : this.Kept) (ts : ℤ) (answer : AnswerRecord)
    (name target : String) : (this.addCName ts answer).Known name target ↔
      this.Known name target ∨
        (∀ other, ¬ this.Known other answer.name) ∧ answer.name = name ∧ answer.data = target := by
  obtain ⟨-, -, -, known⟩ := kept.addCName ts answer
  unfold Known
  simp only [known]
  constructor
  · rintro ⟨id, slot, old | ⟨unknown, -, -, told⟩⟩
    · exact .inl ⟨id, slot, old⟩
    · refine .inr ⟨?_, told⟩
      rintro other ⟨id, slot, old⟩
      exact unknown id slot other old
  · rintro (⟨id, slot, old⟩ | ⟨unknown, told⟩)
    · exact ⟨id, slot, .inl old⟩
    · exact ⟨_, _, .inr ⟨fun id slot other old => unknown other ⟨id, slot, old⟩, rfl, rfl, told⟩⟩

/-- The aliases known are the old ones and those of the answers. -/
def Knows (old : String → String → Prop) (acc : List AnswerRecord) (this : ModDns) : Prop :=
  ∀ name target, this.Known name target ↔
    old name target ∨ ∃ answer ∈ acc, answer.name = name ∧ answer.data = target

section Remembering

variable {old : String → String → Prop} {ts : ℤ} {acc : List AnswerRecord} {answer : AnswerRecord}
  {this : ModDns}

/-- An alias is skipped when an answer stored before leads to its name. -/
theorem Knows.skip (knows : Knows old acc this) (kept : this.Kept)
    (led : ∃ earlier ∈ acc, earlier.data = answer.name) :
    Knows old acc (this.addCName ts answer) := by
  intro name target
  rw [known_addCName kept, ← knows]
  obtain ⟨earlier, member, leads⟩ := led
  have known : this.Known earlier.name answer.name :=
    (knows _ _).mpr (.inr ⟨earlier, member, rfl, leads⟩)
  exact or_iff_left fun new => new.1 earlier.name known

/-- It is stored when neither an old alias nor an answer stored before does. -/
theorem Knows.store (knows : Knows old acc this) (kept : this.Kept)
    (apart : ∀ other, ¬ old other answer.name)
    (unled : ¬ ∃ earlier ∈ acc, earlier.data = answer.name) :
    Knows old (acc ++ [answer]) (this.addCName ts answer) := by
  have unknown : ∀ other, ¬ this.Known other answer.name := by
    intro other known
    rcases (knows other answer.name).mp known with before | ⟨earlier, member, -, leads⟩
    · exact apart other before
    · exact unled ⟨earlier, member, leads⟩
  intro name target
  rw [known_addCName kept, knows, or_assoc]
  apply or_congr_right
  constructor
  · rintro (⟨earlier, member, told⟩ | ⟨-, told⟩)
    · exact ⟨earlier, List.mem_append_left _ member, told⟩
    · exact ⟨answer, List.mem_append_right _ List.mem_cons_self, told⟩
  · rintro ⟨earlier, member, told⟩
    rcases List.mem_append.mp member with member | last
    · exact .inl ⟨earlier, member, told⟩
    · rw [List.mem_singleton.mp last] at told
      exact .inr ⟨unknown, told⟩

/-- Other answers make no alias known. -/
theorem Knows.other {middle : ModDns} (knows : Knows old acc this) (kept : this.Kept)
    (other : ¬ IsAlias answer) (added : this.addRecord ts answer = some middle) :
    Knows old acc middle := by
  intro name target
  cases recordAdded_of_addRecord added with
  | address middle address added => rw [known_addAddress kept added, knows]
  | isAlias isAlias => exact (other isAlias).elim
  | other => exact knows name target

end Remembering

/-- **The aliases known after a response** are the old ones and those stored, if no
old alias is a name of the response. -/
theorem Knows.remember {old : String → String → Prop} {ts : ℤ} {acc answers : List AnswerRecord}
    {this after : ModDns} (knows : Knows old acc this) (kept : this.Kept)
    (apart : ∀ answer ∈ answers, IsAlias answer → ∀ other, ¬ old other answer.name)
    (added : ModDns.remember ts answers this = some after) :
    Knows old (stored acc (aliases answers)) after := by
  induction answers generalizing this acc with
  | nil =>
      cases added
      exact knows
  | cons answer rest ih =>
      obtain ⟨middle, first, added⟩ := Option.bind_eq_some_iff.mp added
      obtain ⟨here, later⟩ := List.forall_mem_cons.mp apart
      have keptMiddle := (kept.addRecord first).kept
      by_cases isAlias : IsAlias answer
      · rw [addRecord_of_isAlias isAlias] at first
        cases first
        rw [aliases_cons_of_isAlias isAlias, stored]
        by_cases led : ∃ earlier ∈ acc, earlier.data = answer.name
        · rw [if_pos led]
          exact ih (knows.skip kept led) keptMiddle later added
        · rw [if_neg led]
          exact ih (knows.store kept (here isAlias) led) keptMiddle later added
      · rw [aliases_cons_of_not_isAlias isAlias]
        exact ih (knows.other kept isAlias first) keptMiddle later added

/-! ## What the chain resolves to -/

variable {chain : AliasChain} {this before after : ModDns}

namespace AliasChain

theorem link_injOn {i j : ℕ} (below : i < chain.length) (below' : j < chain.length)
    (same : (chain.link i).name = (chain.link j).name) : i = j := by
  rw [chain.linkName i below, chain.linkName j below'] at same
  exact chain.distinct i (Nat.le_of_lt below) j (Nat.le_of_lt below') same

theorem not_isAlias_address (chain : AliasChain) : ¬ IsAlias chain.address :=
  fun isAlias => isAlias.not_isAddress chain.isAddress

theorem mem_answers {answer : AnswerRecord} : answer ∈ chain.answers ↔
    answer = chain.address ∨ ∃ i < chain.length, chain.link i = answer := by
  unfold answers
  rw [List.mem_cons, List.mem_map]
  simp only [List.mem_range]

/-- The aliases of a response with the chain are its links. -/
theorem mem_aliases_iff {answers : List AnswerRecord} (perm : answers.Perm chain.answers)
    {answer : AnswerRecord} :
    answer ∈ aliases answers ↔ ∃ i < chain.length, chain.link i = answer := by
  rw [mem_aliases, perm.mem_iff, mem_answers]
  constructor
  · rintro ⟨rfl | link, isAlias⟩
    · exact (chain.not_isAlias_address isAlias).elim
    · exact link
  · rintro ⟨i, below, rfl⟩
    exact ⟨.inr ⟨i, below, rfl⟩, chain.isAlias i below⟩

theorem aliases_nodup {answers : List AnswerRecord} (perm : answers.Perm chain.answers) :
    (aliases answers).Nodup := by
  have links : aliases chain.answers = (List.range chain.length).map chain.link := by
    unfold AliasChain.answers
    rw [aliases_cons_of_not_isAlias chain.not_isAlias_address]
    apply List.filter_eq_self.mpr
    intro answer member
    obtain ⟨i, below, rfl⟩ := List.mem_map.mp member
    exact decide_eq_true (chain.isAlias i (List.mem_range.mp below))
  apply (perm.filter _).nodup_iff.mpr
  change (aliases chain.answers).Nodup
  rw [links]
  apply List.Nodup.map_on _ List.nodup_range
  intro i below j below' same
  exact link_injOn (List.mem_range.mp below) (List.mem_range.mp below') (congrArg _ same)

/-- An alias of the chain is known for the name before it only. -/
def Exact (chain : AliasChain) (this : ModDns) : Prop :=
  ∀ name, ∀ j ≤ chain.length, this.Known name (chain.name j) →
    ∃ i < chain.length, j = i + 1 ∧ name = chain.name i

/-- With every link known, following the aliases ends at the first name. -/
theorem follow_of_known (exactly : chain.Exact this)
    (known : ∀ i < chain.length, this.Known (chain.name i) (chain.name (i + 1))) {i left : ℕ}
    (inside : i ≤ chain.length) (enough : i ≤ left) :
    this.follow left (chain.name i) = chain.name 0 := by
  induction i generalizing left with
  | zero =>
      cases left with
      | zero => rfl
      | succ left =>
          rw [follow]
          cases found : this.nameTable.get CNameRecord.virt
              (CNameRecord.calcHash (chain.name 0)) (chain.name 0) with
          | none => rfl
          | some id =>
              obtain ⟨slot, entry⟩ := getAlias_eq_some found
              obtain ⟨i, -, absurd, -⟩ := exactly _ 0 (Nat.zero_le _) ⟨id, slot, entry⟩
              omega
  | succ i ih =>
      obtain ⟨left, rfl⟩ := Nat.exists_eq_succ_of_ne_zero (Nat.ne_zero_of_lt enough)
      rw [follow]
      cases found : this.nameTable.get CNameRecord.virt
          (CNameRecord.calcHash (chain.name (i + 1))) (chain.name (i + 1)) with
      | none =>
          obtain ⟨id, slot, entry⟩ := known i inside
          exact (getAlias_eq_none found id slot _ entry).elim
      | some id =>
          obtain ⟨slot, entry⟩ := getAlias_eq_some found
          obtain ⟨j, -, next, named⟩ := exactly _ (i + 1) inside ⟨id, slot, entry⟩
          obtain rfl : i = j := by omega
          dsimp only
          rw [named]
          exact ih (Nat.le_of_lt inside) (Nat.le_of_succ_le_succ enough)

/-- With a link missing, following the aliases ends at a later name. -/
theorem follow_of_missing (exactly : chain.Exact this) {missing : ℕ}
    (unknown : ¬ this.Known (chain.name missing) (chain.name (missing + 1))) {i left : ℕ}
    (above : missing < i) (inside : i ≤ chain.length) :
    ∃ j ≤ chain.length, missing < j ∧ this.follow left (chain.name i) = chain.name j := by
  induction left generalizing i with
  | zero => exact ⟨i, inside, above, rfl⟩
  | succ left ih =>
      rw [follow]
      cases found : this.nameTable.get CNameRecord.virt
          (CNameRecord.calcHash (chain.name i)) (chain.name i) with
      | none => exact ⟨i, inside, above, rfl⟩
      | some id =>
          obtain ⟨slot, entry⟩ := getAlias_eq_some found
          obtain ⟨j, below, rfl, named⟩ := exactly _ i inside ⟨id, slot, entry⟩
          have different : j ≠ missing := by
            rintro rfl
            rw [named] at entry
            exact unknown ⟨id, slot, entry⟩
          dsimp only
          rw [named]
          exact ih (by omega) (Nat.le_of_lt below)

/-- **Following the aliases** from the last name ends at the first one exactly when
every link is known. -/
theorem follow_eq_iff (exactly : chain.Exact this) :
    this.follow recurMaxDefault (chain.name chain.length) = chain.name 0 ↔
      ∀ i < chain.length, this.Known (chain.name i) (chain.name (i + 1)) := by
  constructor
  · intro ends i below
    by_contra unknown
    obtain ⟨j, inside, above, ended⟩ : ∃ j ≤ chain.length, i < j ∧
        this.follow recurMaxDefault (chain.name chain.length) = chain.name j :=
      follow_of_missing exactly unknown below (Nat.le_refl chain.length)
    have first := chain.distinct 0 (Nat.zero_le _) j inside (ends.symm.trans ended)
    omega
  · exact fun known => follow_of_known exactly known (Nat.le_refl _) chain.short

theorem Unmentioned.unknown (apart : chain.Unmentioned this) {i : ℕ} (inside : i ≤ chain.length)
    (name : String) : ¬ this.Known name (chain.name i) := by
  rintro ⟨id, slot, entry⟩
  exact (apart.aliases id slot name _ entry i inside).2 rfl

/-- What a response with the chain makes known about the names of the chain. -/
theorem known_iff (kept : before.Kept) {ts : ℤ} {answers : List AnswerRecord}
    (perm : answers.Perm chain.answers) (apart : chain.Unmentioned before)
    (added : remember ts answers before = some after) {j : ℕ} (inside : j ≤ chain.length)
    (name : String) : after.Known name (chain.name j) ↔
      ∃ i < chain.length, chain.link i ∈ stored [] (aliases answers) ∧ j = i + 1 ∧
        name = chain.name i := by
  have named : ∀ answer ∈ answers, IsAlias answer → ∀ other, ¬ before.Known other answer.name := by
    intro answer member isAlias
    obtain ⟨i, below, rfl⟩ := (mem_aliases_iff perm).mp (mem_aliases.mpr ⟨member, isAlias⟩)
    rw [chain.linkName i below]
    exact apart.unknown (Nat.le_of_lt below)
  have start : Knows before.Known [] before := by
    intro name target
    simp only [List.not_mem_nil, false_and, exists_false, or_false]
  rw [start.remember kept named added, or_iff_right (apart.unknown inside name)]
  constructor
  · rintro ⟨answer, member, rfl, target⟩
    have carried := (mem_of_mem_stored member).resolve_left (List.not_mem_nil)
    obtain ⟨i, below, rfl⟩ := (mem_aliases_iff perm).mp carried
    rw [chain.linkData i below] at target
    exact ⟨i, below, member, (chain.distinct (i + 1) below j inside target).symm,
      chain.linkName i below⟩
  · rintro ⟨i, below, member, rfl, rfl⟩
    exact ⟨chain.link i, member, chain.linkName i below, chain.linkData i below⟩

/-- The links are all known exactly when the response has them back to front. -/
theorem links_known_iff (kept : before.Kept) {ts : ℤ} {answers : List AnswerRecord}
    (perm : answers.Perm chain.answers) (apart : chain.Unmentioned before)
    (added : remember ts answers before = some after) :
    (∀ i < chain.length, after.Known (chain.name i) (chain.name (i + 1))) ↔
      BackToFront answers := by
  have all : (∀ answer ∈ aliases answers, answer ∈ stored [] (aliases answers)) ↔
      BackToFront answers := all_stored_iff (aliases_nodup perm) .nil
  rw [← all]
  constructor
  · intro known answer member
    obtain ⟨i, below, rfl⟩ := (mem_aliases_iff perm).mp member
    obtain ⟨j, -, stored, next, -⟩ := (known_iff kept perm apart added below _).mp (known i below)
    obtain rfl : i = j := by omega
    exact stored
  · intro stored i below
    apply (known_iff kept perm apart added below _).mpr
    exact ⟨i, below, stored _ ((mem_aliases_iff perm).mpr ⟨i, below, rfl⟩), rfl, rfl⟩

/-- The address of the chain is found with the last name. -/
theorem getAddr_address (kept : before.Kept) {ts : ℤ} {answers : List AnswerRecord}
    (perm : answers.Perm chain.answers) (apart : chain.Unmentioned before)
    (added : remember ts answers before = some after) {hv : UInt64}
    (hashes : ARecord.calcHash chain.address.ptr = some hv) :
    ∃ id, after.addrTable.get ARecord.virt hv chain.address.ptr = some id ∧
      (after.addrTable.object id).name = chain.name chain.length := by
  have remembered := kept.remember added
  cases found : after.addrTable.get ARecord.virt hv chain.address.ptr with
  | none =>
      have member : chain.address ∈ answers := perm.mem_iff.mpr List.mem_cons_self
      obtain ⟨id, slot, name, entry⟩ := remember_hasAddr kept chain.isAddress member added
      exact (remembered.kept.getAddr_eq_none hashes found id slot name entry).elim
  | some id =>
      refine ⟨id, rfl, ?_⟩
      obtain ⟨slot, entry⟩ := getAddr_eq_some found
      rcases remembered.newAddr id slot _ _ entry with
        old | ⟨-, -, answer, member, address, told, -⟩
      · exact ((apart.addrs id slot _ _ old).1 rfl).elim
      · rcases mem_answers.mp (perm.mem_iff.mp member) with rfl | ⟨i, below, rfl⟩
        · exact told.symm.trans chain.addressName
        · exact ((chain.isAlias i below).not_isAddress address).elim

/-- **Resolving the address** after the answers have been remembered. -/
theorem resolves_iff (kept : before.Kept) {ts : ℤ} {answers : List AnswerRecord}
    (perm : answers.Perm chain.answers) (apart : chain.Unmentioned before)
    (added : remember ts answers before = some after) :
    after.resolvAddr chain.address.ptr recurMaxDefault = some (chain.name 0) ↔
      BackToFront answers := by
  obtain ⟨hv, hashes⟩ := calcHash_isSome chain.size
  obtain ⟨id, found, named⟩ := getAddr_address kept perm apart added hashes
  have exactly : chain.Exact after := by
    intro name j inside known
    obtain ⟨i, below, -, next, same⟩ := (known_iff kept perm apart added inside name).mp known
    exact ⟨i, below, next, same⟩
  rw [resolvAddr_eq hashes, found, Option.some.injEq]
  dsimp only [Option.elim]
  rw [named, follow_eq_iff exactly, links_known_iff kept perm apart added]

/-- Progress makes no record mention the chain. -/
theorem Unmentioned.tick (apart : chain.Unmentioned this) (ts : ℤ) :
    chain.Unmentioned (this.tick ts) := by
  by_cases progress : this.Progresses ts
  · rw [tick_of_progresses progress]
    constructor
    · exact fun id slot name addr entry =>
        apart.addrs id slot name addr ((Pool.entry_prog _ id slot _).mp entry).1
    · exact fun id slot name target entry =>
        apart.aliases id slot name target ((Pool.entry_prog _ id slot _).mp entry).1
  · rw [tick_of_not_progresses progress]
    exact ⟨apart.addrs, apart.aliases⟩

theorem Unmentioned.not_resolved (apart : chain.Unmentioned this) (recurMax : ℕ) :
    this.resolvAddr chain.address.ptr recurMax ≠ some (chain.name 0) := by
  obtain ⟨hv, hashes⟩ := calcHash_isSome chain.size
  rw [resolvAddr_eq hashes]
  cases found : this.addrTable.get ARecord.virt hv chain.address.ptr with
  | none => exact fun same => chain.named 0 (Nat.zero_le _) (Option.some.inj same).symm
  | some id =>
      obtain ⟨slot, entry⟩ := getAddr_eq_some found
      exact ((apart.addrs id slot _ _ entry).1 rfl).elim

theorem sized {answers : List AnswerRecord} (perm : answers.Perm chain.answers) :
    Sized answers := by
  intro answer member address
  rcases mem_answers.mp (perm.mem_iff.mp member) with rfl | ⟨i, below, rfl⟩
  · exact chain.size
  · exact ((chain.isAlias i below).not_isAddress address).elim

end AliasChain

/-- **Resolution of alias chains.** The address of a chain that a response carries
resolves to the first name of the chain exactly when a query with a question is
found for the response and its aliases come back to front. -/
theorem chain_resolves_iff (chain : AliasChain) (inputs : List Input) (this : ModDns)
    (reached : (ModDns.new.run inputs).result = some this) (memory : Memory) (p : Property)
    (response : p.dnsQuery ≠ 0) (perm : p.answers.Perm chain.answers)
    (apart : chain.Unmentioned this) :
    (∃ after, (this.recv memory p).result = some after ∧
        after.resolvAddr chain.address.ptr recurMaxDefault = some (chain.name 0)) ↔
      (∃ id, (this.tick p.tvSec).findQuery p = some id ∧
        ((this.tick p.tvSec).queryAt id).name ≠ []) ∧ BackToFront p.answers := by
  have kept := (Kept.run reached).tick p.tvSec
  have apart := apart.tick p.tvSec
  rcases recv_spec memory p this with ⟨⟨-, id, found, fails⟩, aborted⟩ |
    ⟨events, after, same, handled⟩
  · have unasked := fails.resolve_right fun wrong => wrong (AliasChain.sized perm)
    constructor
    · rintro ⟨after, returned, -⟩
      rw [aborted] at returned
      cases returned
    · rintro ⟨⟨other, found', asks⟩, -⟩
      rw [found] at found'
      cases found'
      exact (asks unasked).elim
  rw [same]
  simp only [Option.some.injEq, exists_eq_left']
  cases handled with
  | asked query => exact (response query).elim
  | askedAgain id query => exact (response query).elim
  | answered id qName logs after _ found named _ remembered =>
      have apart : chain.Unmentioned { this.tick p.tvSec with
          queryTable := (this.tick p.tvSec).queryTable.modify id (Query.setHasReply true) } :=
        ⟨apart.addrs, apart.aliases⟩
      rw [AliasChain.resolves_iff (kept.answering id) perm apart remembered]
      have asks : ((this.tick p.tvSec).queryAt id).name ≠ [] := by
        intro unasked
        rw [qName_eq_none.mpr unasked] at named
        cases named
      exact (and_iff_right ⟨id, found, asks⟩).symm
  | missed _ absent =>
      constructor
      · exact fun resolved => (apart.not_resolved recurMaxDefault resolved).elim
      · rintro ⟨⟨id, found, -⟩, -⟩
        rw [absent] at found
        cases found

/-- The chain of `a`, `b` and `c`. -/
def sampleChain : AliasChain where
  length := 2
  name i := ["a", "b", "c"].getD i ""
  link i := [⟨"a", "", 5, "b", []⟩, ⟨"b", "", 5, "c", []⟩].getD i ⟨"", "", 0, "", []⟩
  address := ⟨"c", "", 1, "", [10, 0, 0, 9]⟩
  positive := by decide
  short := by decide
  distinct := by decide
  named := by decide
  isAlias := by decide
  linkName := by decide
  linkData := by decide
  isAddress := by decide
  addressName := by decide
  size := by decide

/-- A response with the answers, in the second after the query. -/
def sampleResponse (answers : List AnswerRecord) : Property :=
  { sampleQuery 2 with dnsQuery := 1, answers := answers }

/-- After the query, its response is waited for and no record is held. -/
theorem sampleChain_asked : ∃ this, (ModDns.new.run [⟨blank, sampleQuery 1⟩]).result = some this ∧
    sampleChain.Unmentioned this ∧ ∀ answers, ∃ id,
      (this.tick 2).findQuery (sampleResponse answers) = some id ∧
        ((this.tick 2).queryAt id).name ≠ [] := by
  have computed : (ModDns.new.run [⟨blank, sampleQuery 1⟩]).result.map (fun this =>
      (this.addrTable.table.live, this.nameTable.table.live,
        ((this.tick 2).findQuery (sampleResponse [])).map
          fun id => decide (((this.tick 2).queryAt id).name ≠ []))) =
      some ([], [], some true) := by
    decide +kernel
  obtain ⟨this, reached, facts⟩ := Option.map_eq_some_iff.mp computed
  obtain ⟨addrs, facts⟩ := Prod.mk.inj facts
  obtain ⟨names, facts⟩ := Prod.mk.inj facts
  obtain ⟨id, found, asks⟩ := Option.map_eq_some_iff.mp facts
  refine ⟨this, reached, ⟨fun _ _ _ _ entry => ?_, fun _ _ _ _ entry => ?_⟩,
    fun answers => ⟨id, found, of_decide_eq_true asks⟩⟩
  · have live := entry.1
    rw [Pool.Live, addrs] at live
    cases live
  · have live := entry.1
    rw [Pool.Live, names] at live
    cases live

/-- Back to front, the chain resolves. -/
theorem chain_resolves_iff_sample : ∃ this after,
    (ModDns.new.run [⟨blank, sampleQuery 1⟩]).result = some this ∧
    (this.recv blank (sampleResponse sampleChain.answers.reverse)).result = some after ∧
    after.resolvAddr [10, 0, 0, 9] recurMaxDefault = some "a" := by
  obtain ⟨this, reached, apart, asked⟩ := sampleChain_asked
  obtain ⟨after, returned, resolved⟩ := (chain_resolves_iff sampleChain _ this reached blank
    (sampleResponse sampleChain.answers.reverse) (by decide) (List.reverse_perm _) apart).mpr
      ⟨asked _, by decide⟩
  exact ⟨this, after, reached, returned, resolved⟩

/-- **Front to back, a chain does not resolve.** The second alias is not stored, for
the first one leads to it, and the address resolves to `c`. -/
theorem frontToBack_not_resolved :
    ¬ ∀ (chain : AliasChain) (inputs : List Input) (this : ModDns),
      (ModDns.new.run inputs).result = some this → ∀ (memory : Memory) (p : Property),
        p.dnsQuery ≠ 0 → p.answers.Perm chain.answers → chain.Unmentioned this →
          (∃ id, (this.tick p.tvSec).findQuery p = some id ∧
            ((this.tick p.tvSec).queryAt id).name ≠ []) →
          ∃ after, (this.recv memory p).result = some after ∧
            after.resolvAddr chain.address.ptr recurMaxDefault = some (chain.name 0) := by
  intro resolves
  obtain ⟨this, reached, apart, asked⟩ := sampleChain_asked
  have perm : (sampleChain.answers.rotate 1).Perm sampleChain.answers := by decide
  obtain ⟨after, returned, resolved⟩ := resolves sampleChain _ this reached blank
    (sampleResponse (sampleChain.answers.rotate 1)) (by decide) perm apart (asked _)
  have run : (ModDns.new.run [⟨blank, sampleQuery 1⟩,
      ⟨blank, sampleResponse (sampleChain.answers.rotate 1)⟩]).result = some after :=
    Exec.run_snoc_result.mpr ⟨this, reached, returned⟩
  have computed : (ModDns.new.run [⟨blank, sampleQuery 1⟩,
      ⟨blank, sampleResponse (sampleChain.answers.rotate 1)⟩]).result.bind
      (fun after => after.resolvAddr [10, 0, 0, 9] recurMaxDefault) = some "c" := by
    decide +kernel
  rw [run, Option.bind_some] at computed
  have same : some "a" = some "c" := resolved.symm.trans computed
  revert same
  decide

end ModDns

end Devourer
