import Dbss.Net.LinkRedis.Scores

namespace Dbss.Net.RedisLink

open Dbss.Data Dbss.Util

/-! The optional clauses of ZRANGEBYSCORE and ZREVRANGEBYSCORE. -/

inductive Clause where
  | withscores (keyword : Bytes)
  | limit (keyword offset count : Bytes)

namespace Clause

def words : Clause → List Bytes
  | withscores keyword => [keyword]
  | limit keyword offset count => [keyword, offset, count]

/-- The keyword may be in any letter case; offset and count are decimal. -/
def Spelled : Clause → Prop
  | withscores keyword => strToLower keyword = ascii "withscores"
  | limit keyword offset count =>
      strToLower keyword = ascii "limit" ∧ (∃ value, Numeral offset value) ∧ ∃ value, Numeral count value

def limit? : Clause → Option (Bytes × Bytes)
  | withscores _ => none
  | limit _ offset count => some (offset, count)

def isWithscores : Clause → Bool
  | withscores _ => true
  | limit .. => false

def apply (state : Clauses) : Clause → Clauses
  | withscores _ => { state with withscores := ascii "withscores" }
  | limit _ offset count =>
      if state.offset = [] then { state with offset, count } else { state with count := offset }

end Clause

def limits (clauses : List Clause) : List (Bytes × Bytes) :=
  clauses.filterMap Clause.limit?

variable {link : RedisLink} {word name firstText secondText text : Bytes} {clauses : List Clause}
  {state : Clauses}

/-- A number is no keyword. -/
theorem numeral_lower {value : Int} (number : Numeral text value) :
    text ≠ [] ∧ strToLower text ≠ ascii "withscores" ∧ strToLower text ≠ ascii "limit" := by
  have first : ∃ byte rest, text = byte :: rest ∧ (byte = 45 ∨ isDigit byte = true) := by
    cases number with
    | nonnegative nonempty plain =>
        obtain ⟨byte, rest, rfl⟩ := List.exists_cons_of_ne_nil nonempty
        exact ⟨byte, rest, rfl, .inr (plain byte List.mem_cons_self)⟩
    | @negative digits => exact ⟨45, digits, rfl, .inl rfl⟩
  obtain ⟨byte, rest, rfl, sign⟩ := first
  have small : byte.toNat ≤ 57 := by
    rcases sign with rfl | digit
    · decide
    · exact (isDigit_iff.mp digit).2
  have kept : toLower byte = byte := by
    rw [toLower, if_neg]
    simp only [Bool.and_eq_true, decide_eq_true_eq, UInt8.le_iff_toNat_le, UInt8.reduceToNat]
    omega
  have different {letter : UInt8} {others : Bytes} (high : 57 < letter.toNat) :
      strToLower (byte :: rest) ≠ letter :: others := by
    intro same
    have head := (List.cons.inj same).1
    rw [kept] at head
    subst head
    omega
  exact ⟨List.cons_ne_nil _ _, different (by decide), different (by decide)⟩

theorem Clauses.read_word {value : Int} (number : Numeral text value) :
    state.read text =
      if state.afterLimit then
        if state.offset = [] then { state with offset := text }
        else { state with count := text, afterLimit := false }
      else state := by
  obtain ⟨_, noScores, noLimit⟩ := numeral_lower number
  simp only [Clauses.read, if_neg noScores, if_neg noLimit]

theorem Clauses.read_keyword (outside : state.afterLimit = false) (keyword : Bytes) :
    state.read keyword =
      if strToLower keyword = ascii "withscores" then { state with withscores := strToLower keyword }
      else if strToLower keyword = ascii "limit" then { state with afterLimit := true }
      else state := by
  simp only [Clauses.read, outside, Bool.false_eq_true, if_false]

theorem Clause.foldl_words {clause : Clause} (spelled : clause.Spelled) (outside : state.afterLimit = false) :
    clause.words.foldl Clauses.read state = clause.apply state ∧ (clause.apply state).afterLimit = false := by
  cases clause with
  | withscores keyword =>
      have lower : strToLower keyword = ascii "withscores" := spelled
      rw [words, List.foldl_cons, List.foldl_nil, Clauses.read_keyword outside, if_pos lower, lower]
      exact ⟨rfl, outside⟩
  | limit keyword offset count =>
      obtain ⟨lower, ⟨_, offsetNumber⟩, _, countNumber⟩ := spelled
      have other : strToLower keyword ≠ ascii "withscores" := by
        rw [lower]
        decide
      have nonempty := (numeral_lower offsetNumber).1
      simp only [words, List.foldl_cons, List.foldl_nil, Clauses.read_keyword outside, if_neg other, if_pos lower,
        Clauses.read_word offsetNumber, Clauses.read_word countNumber, apply]
      -- the first number goes where the scan expects an offset only if none has been read
      by_cases fresh : state.offset = []
      · simp [fresh, nonempty, outside]
      · simp [fresh, outside]

theorem foldl_clauses (spelled : ∀ clause ∈ clauses, clause.Spelled) (outside : state.afterLimit = false) :
    (clauses.flatMap Clause.words).foldl Clauses.read state = clauses.foldl Clause.apply state := by
  induction clauses generalizing state with
  | nil => rfl
  | cons clause clauses ih =>
      obtain ⟨first, later⟩ := List.forall_mem_cons.mp spelled
      obtain ⟨read, closed⟩ := Clause.foldl_words first outside
      rw [List.flatMap_cons, List.foldl_append, read, List.foldl_cons, ih later closed]

theorem foldl_withscores (clauses : List Clause) (state : Clauses) :
    (clauses.foldl Clause.apply state).withscores =
      if clauses.any Clause.isWithscores then ascii "withscores" else state.withscores := by
  induction clauses generalizing state with
  | nil => rfl
  | cons clause clauses ih =>
      rw [List.foldl_cons, ih]
      cases clause with
      | withscores keyword => simp [Clause.apply, Clause.isWithscores]
      | limit keyword offset count =>
          have kept : (Clause.apply state (.limit keyword offset count)).withscores = state.withscores := by
            simp only [Clause.apply, apply_ite Clauses.withscores, ite_self]
          simp [kept, Clause.isWithscores]

/-- Once there is an offset it stays, and the count is the offset of the last LIMIT. -/
theorem foldl_limits_later (clauses : List Clause) (started : state.offset ≠ []) :
    (clauses.foldl Clause.apply state).offset = state.offset ∧
      (clauses.foldl Clause.apply state).count = ((limits clauses).getLast?.map Prod.fst).getD state.count := by
  induction clauses generalizing state with
  | nil => exact ⟨rfl, rfl⟩
  | cons clause clauses ih =>
      cases clause with
      | withscores keyword => exact ih started
      | limit keyword offset count =>
          rw [List.foldl_cons, Clause.apply, if_neg started]
          have still : ({ state with count := offset } : Clauses).offset ≠ [] := started
          obtain ⟨kept, counted⟩ := ih still
          refine ⟨kept, counted.trans ?_⟩
          rw [limits, limits, List.filterMap_cons_some (show Clause.limit? _ = _ from rfl), List.getLast?_cons]
          cases (clauses.filterMap Clause.limit?).getLast? <;> rfl

def readLimit : List (Bytes × Bytes) → Bytes × Bytes
  | [] => (ascii "0", ascii "2000000000")
  | (offset, count) :: more => (offset, (more.getLast?.map Prod.fst).getD count)

/-- The offset and count that are meant: those of the last LIMIT. -/
def meantLimit (limits : List (Bytes × Bytes)) : Bytes × Bytes :=
  limits.getLast?.getD (ascii "0", ascii "2000000000")

theorem limits_nonempty (spelled : ∀ clause ∈ clauses, clause.Spelled) :
    ∀ limit ∈ limits clauses, limit.1 ≠ [] := by
  intro limit member
  obtain ⟨clause, inside, same⟩ := List.mem_filterMap.mp member
  cases clause with
  | withscores keyword => cases same
  | limit keyword offset count =>
      cases same
      obtain ⟨_, ⟨_, number⟩, _⟩ := spelled _ inside
      exact (numeral_lower number).1

theorem foldl_limits (spelled : ∀ clause ∈ clauses, clause.Spelled) (fresh : state.offset = [])
    (uncounted : state.count = []) :
    (clauses.foldl Clause.apply state).tail =
      [(readLimit (limits clauses)).1, (readLimit (limits clauses)).2,
        (clauses.foldl Clause.apply state).withscores] := by
  induction clauses generalizing state with
  | nil => simp [Clauses.tail, fresh, uncounted, limits, readLimit]
  | cons clause clauses ih =>
      obtain ⟨first, later⟩ := List.forall_mem_cons.mp spelled
      cases clause with
      | withscores keyword => exact ih later fresh uncounted
      | limit keyword offset count =>
          obtain ⟨_, ⟨_, offsetNumber⟩, _, countNumber⟩ := first
          have offsetNonempty := (numeral_lower offsetNumber).1
          have countNonempty := (numeral_lower countNumber).1
          rw [List.foldl_cons, Clause.apply, if_pos fresh]
          obtain ⟨kept, counted⟩ := foldl_limits_later clauses
            (show ({ state with offset, count } : Clauses).offset ≠ [] from offsetNonempty)
          have given : ((limits clauses).getLast?.map Prod.fst).getD count ≠ [] := by
            cases last : (limits clauses).getLast? with
            | none => exact countNonempty
            | some limit => exact limits_nonempty later limit (List.mem_of_getLast? last)
          rw [Clauses.tail, kept, counted, if_neg offsetNonempty, if_neg given]
          rfl

theorem readLimit_eq_iff (limits : List (Bytes × Bytes)) :
    readLimit limits = meantLimit limits ↔
      limits.length ≤ 1 ∨ ∃ text, limits.head?.map Prod.fst = some text ∧ limits.getLast? = some (text, text) := by
  match limits with
  | [] => exact iff_of_true rfl (.inl (Nat.zero_le 1))
  | [(offset, count)] => exact iff_of_true rfl (.inl (le_refl 1))
  | (offset, count) :: next :: more =>
      have several : ¬ ((offset, count) :: next :: more).length ≤ 1 := by simp
      have nonempty : next :: more ≠ [] := List.cons_ne_nil _ _
      obtain ⟨last, found⟩ : ∃ last, (next :: more).getLast? = some last :=
        ⟨_, List.getLast?_eq_some_getLast nonempty⟩
      have whole : ((offset, count) :: next :: more).getLast? = some last := by
        rw [List.getLast?_cons_cons, found]
      rw [readLimit, meantLimit, whole, found]
      simp only [several, false_or, Option.map_some, Option.getD_some, List.head?_cons, Option.some.injEq,
        exists_eq_left', Prod.ext_iff]
      constructor
      · rintro ⟨first, second⟩
        exact ⟨first.symm, second.symm.trans first.symm⟩
      · rintro ⟨first, second⟩
        exact ⟨first.symm, first.trans second.symm⟩

/-- The request ends with the offset and count of the last LIMIT, or their
defaults, and with `withscores` if some clause asks for the scores. -/
def ReadsClauses (request : List Bytes) (clauses : List Clause) : Prop :=
  ∃ withscores, [(meantLimit (limits clauses)).1, (meantLimit (limits clauses)).2, withscores] <:+ request ∧
    (withscores = ascii "withscores" ↔ ∃ clause ∈ clauses, clause.isWithscores = true)

theorem convertReq_clauses (command : ScoreCommand) (errno : Errno) (cmd : link.cmd = command.redisCmd)
    (request : link.recvBytes = word :: name :: firstText :: secondText :: clauses.flatMap Clause.words)
    (firstNonempty : firstText ≠ []) (secondNonempty : secondText ≠ [])
    (spelled : ∀ clause ∈ clauses, clause.Spelled) :
    ∃ front, (convertReq link errno).1.recvString = front ++
      [(readLimit (limits clauses)).1, (readLimit (limits clauses)).2,
        if clauses.any Clause.isWithscores then ascii "withscores" else []] := by
  have converted := convertReq_scores command errno cmd request firstNonempty secondNonempty
  have scanned : (clauses.flatMap Clause.words).foldl Clauses.read ⟨[], [], [], false⟩ =
      clauses.foldl Clause.apply ⟨[], [], [], false⟩ := foldl_clauses spelled rfl
  rw [scanned, foldl_limits spelled rfl rfl, foldl_withscores] at converted
  exact ⟨[_, _, _, _, _], converted⟩

theorem readsClauses_limits (command : ScoreCommand) (errno : Errno) (cmd : link.cmd = command.redisCmd)
    (request : link.recvBytes = word :: name :: firstText :: secondText :: clauses.flatMap Clause.words)
    (firstNonempty : firstText ≠ []) (secondNonempty : secondText ≠ [])
    (spelled : ∀ clause ∈ clauses, clause.Spelled) :
    ReadsClauses (convertReq link errno).1.recvString clauses ↔
      readLimit (limits clauses) = meantLimit (limits clauses) := by
  obtain ⟨front, converted⟩ := convertReq_clauses command errno cmd request firstNonempty secondNonempty spelled
  rw [ReadsClauses, converted]
  constructor
  · rintro ⟨withscores, ⟨rest, same⟩, _⟩
    obtain ⟨_, ends⟩ := List.append_inj' same rfl
    obtain ⟨offset, counted⟩ := List.cons.inj ends
    exact (Prod.ext offset (List.cons.inj counted).1).symm
  · intro same
    rw [same]
    refine ⟨_, List.suffix_append _ _, ?_⟩
    rw [← List.any_eq_true]
    split
    · next wanted => exact iff_of_true rfl wanted
    · next unwanted => exact iff_of_false (by decide) unwanted

/-- The offset of a second LIMIT is taken for the count. -/
theorem readsClauses_iff (command : ScoreCommand) (errno : Errno) (cmd : link.cmd = command.redisCmd)
    (request : link.recvBytes = word :: name :: firstText :: secondText :: clauses.flatMap Clause.words)
    (firstNonempty : firstText ≠ []) (secondNonempty : secondText ≠ [])
    (spelled : ∀ clause ∈ clauses, clause.Spelled) :
    ReadsClauses (convertReq link errno).1.recvString clauses ↔
      (limits clauses).length ≤ 1 ∨ ∃ text, (limits clauses).head?.map Prod.fst = some text ∧
        (limits clauses).getLast? = some (text, text) := by
  rw [readsClauses_limits command errno cmd request firstNonempty secondNonempty spelled, readLimit_eq_iff]

/-- A link on which `zrangebyscore z 0 9` with these clauses has arrived. -/
def clausesRequest (clauses : List Clause) : RedisLink :=
  zrangebyscoreRequest (ascii "0") (ascii "9") |> fun link =>
    { link with recvBytes := link.recvBytes ++ clauses.flatMap Clause.words }

theorem limit_spelled {keyword : Bytes} (lower : strToLower keyword = ascii "limit") (offset count : Nat) :
    (Clause.limit keyword (decimal offset) (decimal count)).Spelled := by
  have spelled (number : Nat) : ∃ value, Numeral (decimal number) value :=
    ⟨_, .nonnegative (decimal_ne_nil number) fun _ => isDigit_of_mem_decimal⟩
  exact ⟨lower, spelled offset, spelled count⟩

def twoLimits : List Clause :=
  [.limit (ascii "LIMIT") (decimal 0) (decimal 5), .limit (ascii "limit") (decimal 10) (decimal 20)]

theorem twoLimits_spelled : ∀ clause ∈ twoLimits, clause.Spelled :=
  List.forall_mem_cons.mpr ⟨limit_spelled (by decide) 0 5,
    List.forall_mem_singleton.mpr (limit_spelled (by decide) 10 20)⟩

theorem readsClauses_iff_two :
    ReadsClauses (convertReq (clausesRequest twoLimits) .success).1.recvString twoLimits ↔
      (limits twoLimits).length ≤ 1 ∨ ∃ text, (limits twoLimits).head?.map Prod.fst = some text ∧
        (limits twoLimits).getLast? = some (text, text) :=
  readsClauses_iff .zrangebyscore .success rfl rfl (by decide) (by decide) twoLimits_spelled

/-- The request asks for 10 scores from the first on, not for 20 behind the tenth. -/
theorem zrangebyscore_twoLimits :
    ¬ ReadsClauses (convertReq (clausesRequest twoLimits) .success).1.recvString twoLimits := by
  have request : (clausesRequest twoLimits).recvBytes =
      ascii "zrangebyscore" :: ascii "z" :: ascii "0" :: ascii "9" :: twoLimits.flatMap Clause.words := rfl
  rw [readsClauses_limits .zrangebyscore .success rfl request (by decide) (by decide) twoLimits_spelled]
  intro same
  have offsets : decimal 0 = decimal 10 := congrArg Prod.fst same
  exact absurd (decimal_injective offsets) (by decide)

end Dbss.Net.RedisLink
