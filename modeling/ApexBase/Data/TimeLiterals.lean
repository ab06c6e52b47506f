import ApexBase.Fts.Query
import ApexBase.Library.Rounding
import ApexBase.Query.Defaults
import Mathlib.Data.List.TakeWhile

/-! Interval literals (`data/time_literals.rs`). -/
namespace ApexBase.Data.TimeLiterals
open Library Library.Binary64 Library.Decimal Library.Overflow Fts
open Query.Defaults (parseI64)

def splitSign : Text → Bool × Text
  | '-' :: unsigned => (true,unsigned)
  | '+' :: unsigned => (false,unsigned)
  | unsigned => (false,unsigned)

def ofDecimal (minus : Bool) (digits : Nat) (exponent : Int) : UInt64 :=
  ofMagnitude minus (nearest (digits * 10^exponent.toNat * 2^1074) (10^(-exponent).toNat))

def parseExponent : Text → Option Int
  | [] => some 0
  | c :: rest =>
    let (minus,digits) := splitSign rest
    if (c = 'e' ∨ c = 'E') ∧ digits ≠ [] ∧ digits.all Char.isDigit then
      some (if minus then -(natOf digits) else natOf digits) else none

def parseDigits (minus : Bool) (text : Text) : Option UInt64 :=
  let whole := text.takeWhile Char.isDigit
  let rest := text.dropWhile Char.isDigit
  let (fraction,rest) := match rest with
    | '.' :: rest => (rest.takeWhile Char.isDigit,rest.dropWhile Char.isDigit)
    | rest => ([],rest)
  if whole = [] ∧ fraction = [] then none
  else (parseExponent rest).map fun exponent => ofDecimal minus (natOf (whole ++ fraction)) (exponent - fraction.length)

def parseF64 (text : Text) : Option UInt64 :=
  let (minus,unsigned) := splitSign text
  let lower := String.ofList (unsigned.map Char.toLower)
  match parseDigits minus unsigned with
  | some value => some value
  | none =>
    if lower = "inf" ∨ lower = "infinity" then some (ofMagnitude minus infinite)
    else if lower = "nan" then some (ofMagnitude minus (magnitude nan))
    else none

def microsPerSecond : Int := 1000000
def microsPerMinute : Int := 60 * microsPerSecond
def microsPerHour : Int := 60 * microsPerMinute
def microsPerDay : Int := 24 * microsPerHour

def inMinute (seconds : UInt64) : Bool := (partialCmp 0 seconds).any (· != .gt) &&
    (partialCmp seconds (ofInt 60)).any (· == .lt)

/-- The seconds, zero if the text ends before them. -/
def parseSeconds : List Text → Option UInt64
  | part :: _ => parseF64 part
  | [] => some 0

def colonParts (trimmed : Text) : Option (Int64 × Int64 × UInt64) :=
  match trimmed.splitOn ':' with
  | hours :: minutes :: rest => do
    let hours ← parseI64 (String.ofList hours)
    let minutes ← parseI64 (String.ofList minutes)
    let seconds ← parseSeconds rest
    if rest.drop 1 ≠ [] ∨ 60 ≤ minutes ∨ ¬ inMinute seconds then none else some (hours,minutes,seconds)
  | _ => none

def micros (seconds : UInt64) : Int64 := roundToInt64 (mul seconds (ofInt microsPerSecond))

def colonTotal (checks : Bool) (hours minutes : Int64) (seconds : UInt64) : Run Int64 := do
  let hours ← int64 checks (hours.toInt * microsPerHour)
  let minutes ← int64 checks (minutes.toInt * microsPerMinute)
  let sum ← int64 checks (hours.toInt + minutes.toInt)
  int64 checks (sum.toInt + (micros seconds).toInt)

def unitScale (unit : Text) : Option UInt64 :=
  match String.ofList unit with
  | "microsecond" => some (ofInt 1)
  | "millisecond" => some (ofInt 1000)
  | "second" | "sec" => some (ofInt microsPerSecond)
  | "minute" | "min" => some (ofInt microsPerMinute)
  | "hour" | "hr" => some (ofInt microsPerHour)
  | "day" => some (ofInt microsPerDay)
  | "week" => some (mul (ofInt 7) (ofInt microsPerDay))
  | _ => none

section Interval
variable (debug : Text → String)

def invalid {α : Type} (trimmed : Text) : Run α := refuse ("invalid INTERVAL literal: " ++ debug trimmed)

def unitForm (trimmed : Text) : Run Int64 :=
  match splitWhitespace trimmed with
  | [] => invalid debug trimmed
  | amount :: fields =>
    match parseF64 amount with
    | none => invalid debug trimmed
    | some amount =>
      match fields with
      | [] => refuse ("INTERVAL literal needs a unit: " ++ debug trimmed)
      | unit :: fields =>
        if fields ≠ [] then refuse ("INTERVAL literal supports one unit (e.g. '1 day'): " ++ debug trimmed)
        else
          let unit := ((unit.map Char.toLower).reverse.dropWhile (· == 's')).reverse
          match unitScale unit with
          | none => refuse ("unsupported INTERVAL unit: " ++ debug unit)
          | some scale => .ok (roundToInt64 (mul amount scale))

def parseIntervalMicros (checks : Bool) (text : Text) : Run Int64 :=
  let trimmed := trim text
  if trimmed.isEmpty then refuse "empty INTERVAL literal"
  else
    match parseI64 (String.ofList trimmed) with
    | some raw => .ok raw
    | none =>
      if ':' ∈ trimmed then
        match colonParts trimmed with
        | none => invalid debug trimmed
        | some (hours,minutes,seconds) => colonTotal checks hours minutes seconds
      else unitForm debug trimmed

end Interval

example : parseIntervalMicros String.ofList true "1.5 hours".toList = .ok 5400000000 := by decide +kernel

def Digits (text : Text) : Prop := text ≠ [] ∧ ∀ c ∈ text, c.isDigit = true

private theorem unsigned {c : Char} {rest : Text} (digits : Digits (c :: rest)) : c ≠ '-' ∧ c ≠ '+' := by
  have digit := digits.2 c List.mem_cons_self
  constructor <;> rintro rfl <;> exact absurd digit (by decide)

private theorem digits_check {digits : Text} (here : Digits digits) :
    (!digits.isEmpty && digits.all Char.isDigit) = true := by
  rw [List.all_eq_true.mpr here.2,Bool.and_true,Bool.not_eq_true',List.isEmpty_eq_false_iff]
  exact here.1

theorem parseI64_digits (sign : Sign) {digits : Text} (here : Digits digits) :
    parseI64 (String.ofList (sign.text ++ digits)) =
    if Fits (sign.apply (natOf digits : Int)) then some (Int64.ofInt (sign.apply (natOf digits : Int))) else none := by
  have check := digits_check here
  unfold parseI64
  rw [String.toList_ofList]
  cases sign with
  | minus =>
    simp only [Sign.text,List.singleton_append,check,Bool.true_and,decide_eq_true_iff,Sign.apply,if_true,
      Int.neg_one_mul]
  | plus =>
    simp only [Sign.text,List.singleton_append,check,Bool.true_and,decide_eq_true_iff,Sign.apply,Int.one_mul,
      reduceCtorEq,if_false]
  | bare =>
    rw [Sign.text,List.nil_append]
    split
    · exact absurd rfl (unsigned here).1
    · exact absurd rfl (unsigned here).2
    · simp only [check,Bool.true_and,decide_eq_true_iff,Sign.apply,Int.one_mul,reduceCtorEq,if_false]

theorem parseI64_some {part : Text} {value : Int64} (found : parseI64 (String.ofList part) = some value) :
    ∃ sign : Sign, ∃ digits, part = sign.text ++ digits ∧ Digits digits ∧ value.toInt =
    sign.apply (natOf digits : Int) := by
  -- the check of the digits, whatever sign stands before them
  have read (sign : Sign) (digits : Text) (factor : Int) (same : factor * (natOf digits : Int) =
    sign.apply (natOf digits : Int))
      (found : (if (!digits.isEmpty && digits.all Char.isDigit && decide (Fits (factor * (natOf digits : Int)))) =
        true then
        some (Int64.ofInt (factor * (natOf digits : Int))) else none) = some value) :
      Digits digits ∧ value.toInt = sign.apply (natOf digits : Int) := by
    split at found
    · rename_i check
      simp only [Bool.and_eq_true,Bool.not_eq_true',List.isEmpty_eq_false_iff,List.all_eq_true,
        decide_eq_true_iff] at check
      have here := Option.some.inj found
      rw [← here,toInt_ofInt check.2]
      exact ⟨check.1,same⟩
    · exact absurd found nofun
  unfold parseI64 at found
  rw [String.toList_ofList] at found
  split at found
  · rename_i rest
    exact ⟨.minus,rest,rfl,read .minus rest (-1) (by simp [Sign.apply]) found⟩
  · rename_i rest
    exact ⟨.plus,rest,rfl,read .plus rest 1 (by simp [Sign.apply]) found⟩
  · exact ⟨.bare,_,rfl,read .bare _ 1 (by simp [Sign.apply]) found⟩

theorem parseF64_digits {digits : Text} (here : Digits digits) : parseF64 digits = some (ofInt (natOf digits)) := by
  have whole : digits.takeWhile Char.isDigit = digits := List.takeWhile_eq_self_iff.mpr here.2
  have rest : digits.dropWhile Char.isDigit = [] := List.dropWhile_eq_nil_iff.mpr here.2
  have read : parseDigits false digits = some (ofInt (natOf digits)) := by
    unfold parseDigits
    simp only [whole,rest,here.1,false_and,if_false,parseExponent,Option.map_some,List.append_nil,List.length_nil]
    rw [ofInt_natCast,ofDecimal,ofNat,Nat.cast_zero,Int.sub_zero,Int.neg_zero,Int.toNat_zero,Nat.pow_zero,Nat.mul_one]
  have bare : splitSign digits = (false,digits) := by
    unfold splitSign
    split
    · exact absurd rfl (unsigned here).1
    · exact absurd rfl (unsigned here).2
    · rfl
  unfold parseF64
  rw [bare]
  simp only [read]

theorem inMinute_ofInt (n : Nat) : inMinute (ofInt n) = true ↔ n < 60 := by
  have start : compare (rank (ofInt 0)) (rank (ofInt n)) ≠ .gt := by
    intro greater
    exact absurd (rank_ofInt_mono (Int.natCast_nonneg n)) (Int.not_le.mpr (compare_gt_iff_gt.mp greater))
  have order : compare (rank (ofInt n)) (rank (ofInt 60)) = .lt ↔ n < 60 := by
    rw [compare_lt_iff_lt]
    constructor
    · intro less
      by_contra above
      exact absurd less (Int.not_lt.mpr (rank_ofInt_mono (show (60 : Int) ≤ n by omega)))
    · intro less
      exact (rank_ofInt_lt (by omega) (by decide)).mpr (by omega)
  rw [← order,inMinute,← ofInt_zero,partialCmp_ofInt,partialCmp_ofInt,Option.any_some,Option.any_some,Bool.and_eq_true,
    bne_iff_ne,beq_iff_eq]
  exact and_iff_right start

theorem micros_ofInt {n : Nat} (small : n < 60) : (micros (ofInt n)).toInt = n * 1000000 := by
  have exact : mul (ofInt n) (ofInt 1000000) = ofInt ((n * 1000000 : Nat) : Int) := mul_ofNat (by omega) (by decide)
  rw [micros,microsPerSecond,exact,roundToInt64_ofNat (by omega),toInt_ofInt ⟨by omega,by omega⟩,Nat.cast_mul,
    Nat.cast_ofNat]

def exactTotal (hours minutes : Int64) (seconds : UInt64) : Int :=
  hours.toInt * microsPerHour + minutes.toInt * microsPerMinute + (micros seconds).toInt

structure TotalFits (hours minutes : Int64) (seconds : UInt64) : Prop where
  hoursFit : Fits (hours.toInt * microsPerHour)
  minutesFit : Fits (minutes.toInt * microsPerMinute)
  sumFits : Fits (hours.toInt * microsPerHour + minutes.toInt * microsPerMinute)
  totalFits : Fits (exactTotal hours minutes seconds)

theorem colonTotal_follows (hours minutes : Int64) (seconds : UInt64) :
    Follows Int64.toInt (fun checks => colonTotal checks hours minutes seconds) (TotalFits hours minutes seconds)
      (some (exactTotal hours minutes seconds)) := by
  have sums (h m : Int64) := (follows_int64 (h.toInt + m.toInt)).bind (fun s => Fits (s + (micros seconds).toInt))
    (fun s => some (s + (micros seconds).toInt)) fun s => follows_int64 (s.toInt + (micros seconds).toInt)
  have minutesPart (h : Int64) := (follows_int64 (minutes.toInt * microsPerMinute)).bind
    (fun m => Fits (h.toInt + m) ∧ ∀ s, some (h.toInt + m) = some s → Fits (s + (micros seconds).toInt))
    (fun m => (some (h.toInt + m)).bind fun s => some (s + (micros seconds).toInt)) (sums h)
  have whole := (follows_int64 (hours.toInt * microsPerHour)).bind
    (fun h => Fits (minutes.toInt * microsPerMinute) ∧ ∀ m, some (minutes.toInt * microsPerMinute) = some m →
      Fits (h + m) ∧ ∀ s, some (h + m) = some s → Fits (s + (micros seconds).toInt))
    (fun h => (some (minutes.toInt * microsPerMinute)).bind fun m => (some (h + m)).bind fun s =>
      some (s + (micros seconds).toInt)) minutesPart
  refine whole.congr ?_ rfl
  constructor
  · rintro ⟨hoursFit,rest⟩
    obtain ⟨minutesFit,rest⟩ := rest _ rfl
    obtain ⟨sumFits,rest⟩ := rest _ rfl
    exact ⟨hoursFit,minutesFit,sumFits,rest _ rfl⟩
  · rintro ⟨hoursFit,minutesFit,sumFits,totalFits⟩
    exact ⟨hoursFit,fun _ same => Option.some.inj same ▸ ⟨minutesFit,fun _ same =>
      Option.some.inj same ▸ ⟨sumFits,fun _ same => Option.some.inj same ▸ totalFits⟩⟩⟩

theorem colonTotal_ok {hours minutes : Int64} {seconds : UInt64} (fits : TotalFits hours minutes seconds)
    (checks : Bool) :
    colonTotal checks hours minutes seconds = .ok (Int64.ofInt (exactTotal hours minutes seconds)) := by
  have agrees := (colonTotal_follows hours minutes seconds).agrees fits checks
  generalize colonTotal checks hours minutes seconds = run at agrees
  generalize same : some (exactTotal hours minutes seconds) = exact at agrees
  cases agrees with
  | value value => rw [Option.some.inj same,Int64.ofInt_toInt]
  | refused message => exact absurd same nofun

/-- A sign, digits, and once or twice a colon with digits. -/
structure ColonLiteral where
  sign : Sign
  hours : Text
  minutes : Text
  seconds : Option Text
  digits : ∀ part ∈ hours :: minutes :: seconds.toList, Digits part

namespace ColonLiteral
variable (literal : ColonLiteral)

def parts : List Text := (literal.sign.text ++ literal.hours) :: literal.minutes :: literal.seconds.toList

def text : Text := [':'].intercalate literal.parts

def secondsValue : Nat := (literal.seconds.map natOf).getD 0

def total : Int :=
  literal.sign.apply (((natOf literal.hours * 3600 + natOf literal.minutes * 60 + literal.secondsValue) *
    1000000 : Nat) : Int)

private theorem digit_plain {c : Char} (digit : c.isDigit = true) : c ≠ ':' ∧ isWhitespace c = false := by
  constructor
  · rintro rfl
    exact absurd digit (by decide)
  · simp only [Char.isDigit,Bool.and_eq_true,decide_eq_true_eq] at digit
    have low : 48 ≤ c.val.toNat := UInt32.le_iff_toNat_le.mp digit.1
    have high : c.val.toNat ≤ 57 := UInt32.le_iff_toNat_le.mp digit.2
    rw [Bool.eq_false_iff]
    intro white
    simp only [isWhitespace,Bool.or_eq_true,Bool.and_eq_true,decide_eq_true_eq,beq_iff_eq,UInt32.le_iff_toNat_le,
      ← UInt32.toNat_inj] at white
    have same : c.toNat = c.val.toNat := rfl
    simp at white
    omega

theorem plain {part : Text} (member : part ∈ literal.parts) : ∀ c ∈ part, c ≠ ':' ∧ isWhitespace c = false := by
  intro c inside
  rcases List.mem_cons.mp member with rfl | rest
  · rcases List.mem_append.mp inside with sign | digit
    · revert sign
      cases literal.sign <;> simp [Sign.text] <;> rintro rfl <;> decide
    · exact digit_plain ((literal.digits _ List.mem_cons_self).2 c digit)
  · exact digit_plain ((literal.digits part (List.mem_cons_of_mem _ rest)).2 c inside)

theorem split_text : literal.text.splitOn ':' = literal.parts :=
  List.splitOn_intercalate ':' (fun _ member colon => (literal.plain member ':' colon).1 rfl) (List.cons_ne_nil _ _)

theorem colonParts_text : colonParts literal.text =
    if Fits (literal.sign.apply (natOf literal.hours : Int)) ∧ natOf literal.minutes < 60 ∧
      literal.secondsValue < 60 then
      some (Int64.ofInt (literal.sign.apply (natOf literal.hours : Int)),Int64.ofInt (natOf literal.minutes),
        ofInt literal.secondsValue) else none := by
  have hours := parseI64_digits literal.sign (literal.digits _ List.mem_cons_self)
  have minutes := parseI64_digits .bare (literal.digits literal.minutes (by simp))
  have seconds : parseSeconds literal.seconds.toList = some (ofInt literal.secondsValue) := by
    unfold secondsValue
    cases same : literal.seconds with
    | none =>
      rw [Option.map_none,Option.getD_none,Nat.cast_zero,ofInt_zero]
      rfl
    | some part => exact parseF64_digits (literal.digits part (by simp [same]))
  have last : literal.seconds.toList.drop 1 = [] := by
    cases literal.seconds <;> rfl
  unfold colonParts
  rw [split_text,parts]
  simp only [Sign.text,List.nil_append,Sign.apply,reduceCtorEq,if_false] at minutes
  by_cases hoursFit : Fits (literal.sign.apply (natOf literal.hours : Int))
  · rw [if_pos hoursFit] at hours
    by_cases minutesFit : Fits (natOf literal.minutes : Int)
    · rw [if_pos minutesFit] at minutes
      have order : (60 : Int64) ≤ Int64.ofInt (natOf literal.minutes) ↔ ¬ natOf literal.minutes < 60 := by
        rw [Int64.le_iff_toInt_le,toInt_ofInt minutesFit]
        change (60 : Int) ≤ _ ↔ _
        omega
      simp only [hours,minutes,seconds,last,order,hoursFit,inMinute_ofInt,bind,Option.bind,ne_eq,not_true_eq_false,
        false_or,true_and,← not_and_or,ite_not]
    · rw [if_neg minutesFit] at minutes
      simp only [hours,minutes,bind,Option.bind]
      rw [if_neg]
      rintro ⟨_,short,_⟩
      exact minutesFit ⟨by omega,by omega⟩
  · rw [if_neg hoursFit] at hours
    simp only [hours,bind,Option.bind]
    rw [if_neg fun here => hoursFit here.1]

end ColonLiteral

section Whole
variable {debug : Text → String} {text : Text}

theorem parse_colon (colon : ':' ∈ trim text) (checks : Bool) : parseIntervalMicros debug checks text =
    match colonParts (trim text) with
    | none => invalid debug (trim text)
    | some (hours,minutes,seconds) => colonTotal checks hours minutes seconds := by
  have raw : parseI64 (String.ofList (trim text)) = none := by
    cases found : parseI64 (String.ofList (trim text)) with
    | none => rfl
    | some value =>
      obtain ⟨sign,digits,same,here,_⟩ := parseI64_some found
      rw [same] at colon
      rcases List.mem_append.mp colon with inSign | inDigits
      · cases sign <;> simp [Sign.text] at inSign
      · exact absurd (here.2 ':' inDigits) (by decide)
  have nonempty : (trim text).isEmpty = false := List.isEmpty_eq_false_iff.mpr (List.ne_nil_of_mem colon)
  unfold parseIntervalMicros
  simp only [nonempty,raw,colon,Bool.false_eq_true,if_false,if_true]

theorem colon_of_split {hours minutes : Text} {rest : List Text}
    (split : (trim text).splitOn ':' = hours :: minutes :: rest) : ':' ∈ trim text := by
  by_contra none
  rw [List.splitOn_eq_singleton none] at split
  exact absurd split (by simp)

private theorem unitForm_result (trimmed : Text) :
    (∃ value, unitForm debug trimmed = .ok value) ∨ ∃ message, unitForm debug trimmed = refuse message := by
  unfold unitForm invalid
  split
  · exact .inr ⟨_,rfl⟩
  · split
    · exact .inr ⟨_,rfl⟩
    · split
      · exact .inr ⟨_,rfl⟩
      · split
        · exact .inr ⟨_,rfl⟩
        · dsimp only
          split
          · exact .inr ⟨_,rfl⟩
          · exact .inl ⟨_,rfl⟩

theorem parse_plain (plain : ':' ∉ trim text) (checks : Bool) :
    parseIntervalMicros debug checks text ≠ .error .panicked := by
  unfold parseIntervalMicros
  simp only [plain,if_false]
  split
  · exact nofun
  · split
    · exact nofun
    · rcases @unitForm_result debug (trim text) with ⟨value,same⟩ | ⟨message,same⟩
      · rw [same]
        exact nofun
      · rw [same]
        exact nofun

def Signed (part : Text) : Prop := part.head? = some '-' ∨ part.head? = some '+'

structure Exact (debug : Text → String) (text : Text) : Prop where
  value : ∀ literal : ColonLiteral, literal.text = trim text → ∀ checks,
    if natOf literal.minutes < 60 ∧ literal.secondsValue < 60 ∧ Fits literal.total then
      parseIntervalMicros debug checks text = .ok (Int64.ofInt literal.total)
    else ∃ message, parseIntervalMicros debug checks text = refuse message
  fits : parseIntervalMicros debug true text ≠ .error .panicked
  refused : ∀ hours minutes rest, (trim text).splitOn ':' = hours :: minutes :: rest →
    (Signed minutes ∨ ∃ part ∈ rest, Signed part) →
    ∀ checks, ∃ message, parseIntervalMicros debug checks text = refuse message

def Reads (text : Text) (hours minutes : Int64) (seconds : UInt64) : Prop :=
  ∃ first second rest, (trim text).splitOn ':' = first :: second :: rest ∧ parseI64 (String.ofList first) = some hours ∧
    parseI64 (String.ofList second) = some minutes ∧ parseSeconds rest = some seconds ∧ rest.drop 1 = [] ∧
    minutes < 60 ∧ inMinute seconds = true

theorem colonParts_some {hours minutes : Int64} {seconds : UInt64} :
    colonParts (trim text) = some (hours,minutes,seconds) ↔ Reads text hours minutes seconds := by
  unfold colonParts Reads
  constructor
  · intro found
    split at found
    · rename_i first second rest split
      obtain ⟨h,readHours,found⟩ := Option.bind_eq_some_iff.mp found
      obtain ⟨m,readMinutes,found⟩ := Option.bind_eq_some_iff.mp found
      obtain ⟨s,readSeconds,found⟩ := Option.bind_eq_some_iff.mp found
      split at found
      · exact absurd found nofun
      · rename_i within
        cases found
        simp only [not_or,not_not,ne_eq] at within
        exact ⟨first,second,rest,split,readHours,readMinutes,readSeconds,within.1,Int64.not_le.mp within.2.1,within.2.2⟩
    · exact absurd found nofun
  · rintro ⟨first,second,rest,split,readHours,readMinutes,readSeconds,last,below,inside⟩
    rw [split]
    simp only [readHours,readMinutes,readSeconds,bind,Option.bind]
    rw [if_neg]
    simp only [not_or,not_not,ne_eq]
    exact ⟨last,Int64.not_le.mpr below,inside⟩

/-- No sign stands inside, the numbers fit, and behind a minus sign in front no minutes or seconds are added. -/
structure Sound (text : Text) (hours minutes : Int64) (seconds : UInt64) : Prop where
  unsigned : ∀ first second rest, (trim text).splitOn ':' = first :: second :: rest → ¬ Signed second ∧
    ∀ part ∈ rest, ¬ Signed part
  fits : TotalFits hours minutes seconds
  wholeHours : ∀ literal : ColonLiteral, literal.text = trim text → literal.sign = .minus → natOf literal.minutes = 0 ∧
    literal.secondsValue = 0

private theorem literal_total {literal : ColonLiteral}
    (hoursFit : Fits (literal.sign.apply (natOf literal.hours : Int))) (short : natOf literal.minutes < 60)
    (short' : literal.secondsValue < 60) :
    exactTotal (Int64.ofInt (literal.sign.apply (natOf literal.hours : Int))) (Int64.ofInt (natOf literal.minutes))
      (ofInt literal.secondsValue) =
      literal.sign.apply (natOf literal.hours : Int) * 3600000000 + natOf literal.minutes * 60000000 +
      literal.secondsValue * 1000000 := by
  rw [exactTotal,toInt_ofInt hoursFit,toInt_ofInt ⟨by omega,by omega⟩,micros_ofInt short']
  rfl

theorem interval_exact_iff (debug : Text → String) (text : Text) :
    Exact debug text ↔ ∀ hours minutes seconds, Reads text hours minutes seconds →
    Sound text hours minutes seconds := by
  constructor
  · intro exact hours minutes seconds reads
    have parts := colonParts_some.mpr reads
    obtain ⟨first,second,rest,split,_⟩ := reads
    have run (checks : Bool) : parseIntervalMicros debug checks text = colonTotal checks hours minutes seconds := by
      rw [parse_colon (colon_of_split split),parts]
    have fits : TotalFits hours minutes seconds := by
      by_contra wide
      exact exact.fits ((run true).trans ((colonTotal_follows hours minutes seconds).panics wide))
    have value : parseIntervalMicros debug true text = .ok (Int64.ofInt (exactTotal hours minutes seconds)) :=
      (run true).trans (colonTotal_ok fits true)
    refine ⟨?_,fits,?_⟩
    · intro first second rest split
      have refused := exact.refused first second rest split
      constructor
      · intro signed
        obtain ⟨message,same⟩ := refused (.inl signed) true
        exact absurd (value.symm.trans same) nofun
      · intro part member signed
        obtain ⟨message,same⟩ := refused (.inr ⟨part,member,signed⟩) true
        exact absurd (value.symm.trans same) nofun
    · intro literal same minus
      have read := literal.colonParts_text
      rw [same,parts] at read
      have asked := exact.value literal same true
      split at read
      · rename_i inside
        obtain ⟨hoursFit,short,short'⟩ := inside
        cases read
        have total := literal_total hoursFit short short'
        split at asked
        · rename_i here
          have equal := congrArg Int64.toInt (Except.ok.inj (value.symm.trans asked))
          rw [toInt_ofInt fits.totalFits,toInt_ofInt here.2.2,total,ColonLiteral.total,minus,Sign.apply,Sign.apply,
            if_pos rfl,if_pos rfl] at equal
          push_cast at equal
          omega
        · obtain ⟨message,same⟩ := asked
          exact absurd (value.symm.trans same) nofun
      · exact absurd read nofun
  · intro sound
    have run (hours minutes : Int64) (seconds : UInt64) (parts : colonParts (trim text) =
      some (hours,minutes,seconds)) (colon : ':' ∈ trim text)
        (checks : Bool) : parseIntervalMicros debug checks text =
        .ok (Int64.ofInt (exactTotal hours minutes seconds)) := by
      rw [parse_colon colon,parts]
      exact colonTotal_ok (sound _ _ _ (colonParts_some.mp parts)).fits checks
    refine ⟨?_,?_,?_⟩
    · intro literal same checks
      have split := literal.split_text
      rw [same] at split
      have colon := colon_of_split split
      have read := literal.colonParts_text
      rw [same] at read
      split at read
      · rename_i inside
        obtain ⟨hoursFit,short,short'⟩ := inside
        have here := sound _ _ _ (colonParts_some.mp read)
        have total := literal_total hoursFit short short'
        have exact : exactTotal (Int64.ofInt (literal.sign.apply (natOf literal.hours : Int)))
          (Int64.ofInt (natOf literal.minutes))
            (ofInt literal.secondsValue) = literal.total := by
          rw [total,ColonLiteral.total]
          by_cases minus : literal.sign = .minus
          · obtain ⟨noMinutes,noSeconds⟩ := here.wholeHours literal same minus
            rw [noMinutes,noSeconds,minus,Sign.apply,Sign.apply,if_pos rfl,if_pos rfl]
            push_cast
            omega
          · rw [Sign.apply,Sign.apply,if_neg minus,if_neg minus]
            push_cast
            omega
        have fits := here.fits.totalFits
        rw [exact] at fits
        rw [if_pos ⟨short,short',fits⟩,run _ _ _ read colon,exact]
      · rename_i outside
        rw [if_neg,parse_colon colon,read]
        · exact ⟨_,rfl⟩
        · rintro ⟨short,short',fits⟩
          refine outside ⟨?_,short,short'⟩
          rw [ColonLiteral.total] at fits
          unfold Sign.apply at fits ⊢
          unfold Fits at fits ⊢
          push_cast at fits
          split at fits
          · rename_i minus
            rw [if_pos minus]
            omega
          · rename_i other
            rw [if_neg other]
            omega
    · by_cases colon : ':' ∈ trim text
      · cases parts : colonParts (trim text) with
        | none =>
          rw [parse_colon colon,parts]
          exact nofun
        | some found =>
          obtain ⟨hours,minutes,seconds⟩ := found
          rw [run _ _ _ parts colon]
          exact nofun
      · exact parse_plain colon true
    · intro first second rest split signed checks
      have colon := colon_of_split split
      cases parts : colonParts (trim text) with
      | none =>
        rw [parse_colon colon,parts]
        exact ⟨_,rfl⟩
      | some found =>
        obtain ⟨hours,minutes,seconds⟩ := found
        obtain ⟨plain,plain'⟩ := (sound _ _ _ (colonParts_some.mp parts)).unsigned first second rest split
        rcases signed with signed | ⟨part,member,signed⟩
        · exact absurd signed plain
        · exact absurd signed (plain' part member)

def minusOneThirty : ColonLiteral where
  sign := .minus
  hours := ['0','1']
  minutes := ['3','0']
  seconds := none
  digits part member := by
    rcases List.mem_cons.mp member with rfl | member
    · exact ⟨by decide,by simp⟩
    · rw [List.mem_singleton.mp member]
      exact ⟨by decide,by simp⟩

/-- Minus one hour and a half is read as minus half an hour. -/
theorem interval_sign_lost : ¬ Exact String.ofList "-01:30".toList := by
  intro exact
  have same : minusOneThirty.text = trim "-01:30".toList := by decide +kernel
  have run : parseIntervalMicros String.ofList true "-01:30".toList = .ok (-1800000000) := by decide +kernel
  have asked := exact.value minusOneThirty same true
  rw [run] at asked
  split at asked
  · exact absurd (Except.ok.inj asked) (by decide +kernel)
  · rename_i outside
    exact outside ⟨by decide,by decide,by decide⟩

end Whole

end ApexBase.Data.TimeLiterals
