import ApexBase.Query.Signature

/-! What a statement reserves (`admission.rs`, `query/executor/memory.rs`). Sizes are 64-bit words. -/
namespace ApexBase.Admission
open Library Library.Bytewise Fts Query.Signature

def defaultLightAdmissionBytes : UInt64 := 16 * 1024 * 1024

def defaultQueueMax : UInt64 := 64

def defaultQueueWaitMs : UInt64 := 5000

def defaultQueryMemoryBytes : UInt64 := 1024 * 1024 * 1024

def saturatingAdd (a b : UInt64) : UInt64 := if a.toNat + b.toNat < 2^64 then a + b else -1

def saturatingMul (a b : UInt64) : UInt64 := if a.toNat * b.toNat < 2^64 then a * b else -1

/-- Admission configuration for one statement. The wait is in milliseconds. -/
structure AdmissionConfig where
  budgetBytes : UInt64
  lightBytes : UInt64
  queueMax : UInt64
  wait : UInt64
  deriving DecidableEq

/-- The variables that are read; one that is not Unicode reads as one that is not set. -/
structure Environment where
  processBudgetMb : Option Text
  queryAdmissionMb : Option Text
  queryQueueMax : Option Text
  queryQueueWaitMs : Option Text
  queryMemoryMb : Option Text

def parsed (variable_ : Option Text) : Option UInt64 := variable_.bind fun text => parseU64 (trim text)

namespace AdmissionConfig

def disabled : AdmissionConfig := ⟨0,defaultLightAdmissionBytes,defaultQueueMax,defaultQueueWaitMs⟩

def fromEnv (env : Environment) : AdmissionConfig :=
  match parsed env.processBudgetMb with
  | none => disabled
  | some budgetMb =>
    if budgetMb = 0 then disabled
    else
      let budgetBytes := saturatingMul budgetMb (1024 * 1024)
      let lightBytes := match parsed env.queryAdmissionMb with
        | some megabytes => saturatingMul megabytes (1024 * 1024)
        | none => defaultLightAdmissionBytes
      let lightBytes := if lightBytes = 0 then budgetBytes else min lightBytes budgetBytes
      ⟨budgetBytes,lightBytes,(parsed env.queryQueueMax).getD defaultQueueMax,
        (parsed env.queryQueueWaitMs).getD defaultQueueWaitMs⟩

end AdmissionConfig

def configuredQueryMemoryLimit (env : Environment) : UInt64 :=
  match parsed env.queryMemoryMb with
  | some megabytes => saturatingMul megabytes (1024 * 1024)
  | none => defaultQueryMemoryBytes

def heavy : List String :=
  [" GROUP BY "," ORDER BY "," JOIN "," DISTINCT "," UNION "," INTERSECT "," EXCEPT "," HAVING "," OVER ("," OVER("]

def isHeavyStatement (sql : Text) : Bool :=
  let trimmed := trimStart sql
  let head := toAsciiUppercase ((upTo trimmed 16).getD trimmed)
  if startsWith head "WITH" then true
  else if !startsWith head "SELECT" then false
  else heavy.any (has (toAsciiUppercase sql))

def heavyReservation (env : Environment) (config : AdmissionConfig) : UInt64 :=
  let perQuery := configuredQueryMemoryLimit env
  max (if perQuery = 0 then config.budgetBytes else min perQuery config.budgetBytes) 1

def AdmissionConfig.reservationFor (config : AdmissionConfig) (env : Environment) (sql : Text) : UInt64 :=
  if config.budgetBytes = 0 then 0
  else if isHeavyStatement sql then heavyReservation env config
  else max (min config.lightBytes config.budgetBytes) 1

end ApexBase.Admission
