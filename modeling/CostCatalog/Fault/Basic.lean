import CostCatalog.Duration
import CostCatalog.Enumeration
import CostCatalog.Fault.Rule
import CostCatalog.Timestamp.Iso
import CostCatalog.Wire.Checked

/-!
# Faults

What can go wrong. A KNOWN fault has a cause that the catalogue names and a context for the log; an
UNEXPECTED one is an accident that no rule foresees, such as a cached record of the wrong shape.
Only the cause decides what a caller is told: see `Fault.outcome`.
-/

namespace CostCatalog

/-! ## Grading -/

/-- How grave a known fault is. -/
inductive Severity where
  | info
  | warning
  | error
  | critical
deriving DecidableEq, Repr

/-- The text of a severity. -/
def Severity.text : Severity → String
  | .info => "info"
  | .warning => "warning"
  | .error => "error"
  | .critical => "critical"

instance : Enumeration Severity where
  title := "ErrorSeverity"
  members := [.info, .warning, .error, .critical]
  text := Severity.text
  mem_members a := by cases a <;> decide
  text_injective a b := by cases a <;> cases b <;> decide

/-- What a known fault is about. -/
inductive Concern where
  | validation
  | businessRule
  | resourceNotFound
  | conflict
  | database
  | cache
  | timeout
  | rateLimit
  | internal
deriving DecidableEq, Repr

/-- The text of a concern. -/
def Concern.text : Concern → String
  | .validation => "validation"
  | .businessRule => "business_rule"
  | .resourceNotFound => "resource_not_found"
  | .conflict => "conflict"
  | .database => "database"
  | .cache => "cache"
  | .timeout => "timeout"
  | .rateLimit => "rate_limit"
  | .internal => "internal"

instance : Enumeration Concern where
  title := "ErrorCategory"
  members := [.validation, .businessRule, .resourceNotFound, .conflict, .database, .cache,
    .timeout, .rateLimit, .internal]
  text := Concern.text
  mem_members a := by cases a <;> decide
  text_injective a b := by cases a <;> cases b <;> decide

instance : Enumeration Kind where
  title := "EntityKind"
  members := [.uom, .parameter]
  text := Kind.text
  mem_members a := by cases a <;> decide
  text_injective a b := by cases a <;> cases b <;> decide

/-! ## Known faults -/

/-- What the log is told about a fault and no caller is. -/
structure Context where
  entity : Option String := none
  code : Option String := none
  operation : Option String := none
  debug : Json := .null

/-- The cause of a known fault. -/
inductive Cause where
  /-- A rule of the catalogue was broken. -/
  | rule (r : Rule)
  /-- The store failed. -/
  | database (operation summary : String)
  /-- A deadline passed before the operation was done. -/
  | timeout (operation : String) (limit : Option Duration)
  /-- A client has used up its share of requests. -/
  | throttled (client : String)
  /-- The cache failed. -/
  | cache (operation summary : String)
  /-- A fault about one kind of entry that follows none of the rules. -/
  | domain (kind : Kind) (message code : String) (concern : Concern) (httpStatus : Int)
  /-- Any other fault the catalogue names. -/
  | other (message code : String) (concern : Concern) (severity : Severity) (httpStatus : Int)

namespace Rule

/-- What a broken rule is about. -/
def concern : Rule → Concern
  | .notFound _ => .resourceNotFound
  | .alreadyExists _ => .conflict
  | .boundsCrossed | .noOptions => .businessRule
  | _ => .validation

/-- The transport status that fits a broken rule. -/
def httpStatus : Rule → Int
  | .notFound _ => 404
  | .alreadyExists _ => 409
  | _ => 400

end Rule

namespace Cause

/-- The wording of a cause. -/
def message : Cause → String
  | .rule r => r.message
  | .database operation summary => "Database " ++ operation ++ " failed: " ++ summary
  | .timeout operation limit =>
    operation ++ " exceeded deadline of " ++ (limit.map Duration.text).getD "None" ++ "s"
  | .throttled _ => "Rate limit exceeded"
  | .cache operation summary => "Cache " ++ operation ++ " failed: " ++ summary
  | .domain _ message _ _ _ => message
  | .other message _ _ _ _ => message

/-- The name of a cause, for logs. -/
def title : Cause → String
  | .rule r => r.title
  | .database .. => "DatabaseError"
  | .timeout .. => "OperationTimeoutError"
  | .throttled _ => "RateLimitedError"
  | .cache .. => "CacheError"
  | .domain .. => "DomainError"
  | .other .. => "CostingError"

/-- The stable code of a cause. -/
def code : Cause → String
  | .rule r => r.code
  | .database .. => "DATABASE_ERROR"
  | .timeout .. => "TIMEOUT"
  | .throttled _ => "RATE_LIMITED"
  | .cache .. => "CACHE_ERROR"
  | .domain _ _ code _ _ => code
  | .other _ code _ _ _ => code

/-- What a cause is about. -/
def concern : Cause → Concern
  | .rule r => r.concern
  | .database .. => .database
  | .timeout .. => .timeout
  | .throttled _ => .rateLimit
  | .cache .. => .cache
  | .domain _ _ _ concern _ => concern
  | .other _ _ concern _ _ => concern

/-- How grave a cause is. -/
def severity : Cause → Severity
  | .database .. => .critical
  | .throttled _ => .warning
  | .cache .. => .warning
  | .other _ _ _ severity _ => severity
  | _ => .error

/-- The transport status that fits a cause. -/
def httpStatus : Cause → Int
  | .rule r => r.httpStatus
  | .database .. => 503
  | .timeout .. => 504
  | .throttled _ => 429
  | .cache .. => 500
  | .domain _ _ _ _ status => status
  | .other _ _ _ _ status => status

/-- The kind of entry a cause is about, if it is about one. -/
def kind? : Cause → Option Kind
  | .rule r => some r.kind
  | .domain k _ _ _ _ => some k
  | _ => none

/-- The operation that failed, for the causes that name one. -/
def operation? : Cause → Option String
  | .database operation _ | .timeout operation _ | .cache operation _ => some operation
  | _ => none

/-- A context with what the cause itself says written over it. -/
def inContext (c : Cause) (context : Context) : Context :=
  { context with
    entity := (c.kind?.map Kind.text).orElse fun _ => context.entity
    operation := c.operation?.orElse fun _ => context.operation }

end Cause

/-! ## Accidents -/

/-- The families of accidents that outside code can raise. -/
inductive Family where
  | runtime
  | value
  | key
  | timeout
  | cancelled
  /-- Any other family, by its name. -/
  | other (name : String)
deriving DecidableEq, Repr

/-- The name of a family, for logs. -/
def Family.title : Family → String
  | .runtime => "RuntimeError"
  | .value => "ValueError"
  | .key => "KeyError"
  | .timeout => "TimeoutError"
  | .cancelled => "CancelledError"
  | .other name => name

/-- Something that no rule foresees. -/
inductive Accident where
  /-- A value is no member of a closed set; `wording` names both. -/
  | unknownMember (wording : String)
  /-- A text is no timestamp. -/
  | unreadableTime (e : Timestamp.ReadError)
  /-- A record lacks a field. -/
  | missingField (name : String)
  /-- A record, or a field of one, is of the wrong type. -/
  | wrongShape
  /-- A timestamp with an offset was compared with one without. -/
  | incomparable
  /-- A timestamp would leave the calendar. -/
  | beyondCalendar
  /-- A quotient is larger than every double. -/
  | quotientTooLarge
  /-- An integer is too large for the store. -/
  | integerTooLarge
  /-- An integer is larger than every double. -/
  | beyondDoubles
  /-- An integer has too many digits for a text. -/
  | tooManyDigits
  /-- The stack has no room left for what was going on. -/
  | stackExhausted (activity : String)
  /-- There is no store. -/
  | storeAbsent
  /-- A message of the catalogue's own does not have the form it must have. -/
  | illFormed (violations : List Wire.Violation)
  /-- Outside code raised an accident of its own. -/
  | raised (family : Family) (text : String)
deriving DecidableEq

namespace Accident

/-- The name of an accident, for logs. -/
def title : Accident → String
  | .unknownMember _ | .unreadableTime _ | .tooManyDigits => "ValueError"
  | .missingField _ => "KeyError"
  | .wrongShape | .incomparable => "TypeError"
  | .beyondCalendar | .quotientTooLarge | .integerTooLarge | .beyondDoubles => "OverflowError"
  | .stackExhausted _ => "RecursionError"
  | .storeAbsent => "RuntimeError"
  | .illFormed _ => "ValidationError"
  | .raised family _ => family.title

/-- What an accident says; for a missing field, its name alone. -/
def detail : Accident → String
  | .unknownMember wording => wording
  | .unreadableTime e => e.message
  | .missingField name => name
  | .wrongShape => "value of the wrong type"
  | .incomparable => "can't compare offset-naive and offset-aware datetimes"
  | .beyondCalendar => "date value out of range"
  | .quotientTooLarge => "integer division result too large for a float"
  | .integerTooLarge => "Python int too large to convert to SQLite INTEGER"
  | .beyondDoubles => "int too large to convert to float"
  | .tooManyDigits => Decimal.tooLong ""
  | .stackExhausted activity => "maximum recursion depth exceeded while " ++ activity
  | .storeAbsent => "Database not initialized"
  | .illFormed violations => "; ".intercalate (violations.map fun v => v.flaw.message)
  | .raised _ text => text

/-- Whether what an accident says is shown between quotes in the log. -/
def isQuoted : Accident → Bool
  | .missingField _ => true
  | .raised .key _ => true
  | _ => false

/-- The wording of an accident in the log. -/
def message (a : Accident) : String := if a.isQuoted then Text.quote a.detail else a.detail

end Accident

/-! ## Faults -/

/-- A fault. -/
inductive Fault where
  | known (cause : Cause) (context : Context)
  | unexpected (accident : Accident)

namespace Fault

/-- The fault of a cause, in the context that the cause itself gives. -/
def ofCause (c : Cause) (context : Context := {}) : Fault := .known c (c.inContext context)

/-- The fault of a broken rule. -/
def ofRule (r : Rule) : Fault := ofCause (.rule r)

/-- The name of a fault, for logs. -/
def title : Fault → String
  | .known c _ => c.title
  | .unexpected a => a.title

/-- The wording of a fault in the log. -/
def message : Fault → String
  | .known c _ => c.message
  | .unexpected a => a.message

/-- The code under which a fault is logged: that of its cause, or the name of the accident. -/
def code : Fault → String
  | .known c _ => c.code
  | .unexpected a => a.title

/-- Whether a fault says that the cache failed. -/
def isOfCache : Fault → Bool
  | .known (.cache ..) _ => true
  | _ => false

/-- Whether a fault is the end of work that was cancelled. -/
def isCancellation : Fault → Bool
  | .unexpected (.raised .cancelled _) => true
  | _ => false

end Fault

end CostCatalog
