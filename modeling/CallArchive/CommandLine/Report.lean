import CallArchive.CommandLine.Failure
import CallArchive.CommandLine.Usage
import CallArchive.Ingest.Pool
import CallArchive.Json.Printer

/-!
# Reports of commands

What commands print about their results, as lines of text and as JSON documents. The members of
these documents are in the order in which they are listed here.
-/

namespace CallArchive

open Json (Value)

/-! ## Documents -/

def optionalValue (f : α → Value) : Option α → Value
  | some a => f a
  | none => .null

/-- Kinds with their counts, by name. -/
def countsValue (name : κ → String) (entries : List (κ × Nat)) : Value :=
  .object (entries.map fun e => (name e.1, .ofNat e.2))

def ArcReport.document (r : ArcReport) : Value :=
  .object [("total", .ofNat r.total), ("accepted", .ofNat r.accepted),
    ("rejected", countsValue Rejection.name r.rejections)]

def Ingest.JobOutcome.document (o : Ingest.JobOutcome) : Value :=
  .object [("label", .text o.label), ("package_id", optionalValue .ofInt o.packageId),
    ("failure", optionalValue (fun c => .text c.name) o.failure),
    ("message", optionalValue .text o.message)]

def Ingest.Summary.document (s : Ingest.Summary) : Value :=
  .object [("succeeded", .ofNat s.succeeded), ("failed", countsValue FailureClass.name s.failures),
    ("arcs", s.arcs.document), ("outcomes", .array (s.outcomes.map (·.document)))]

def Ingest.Report.document (r : Ingest.Report) : Value :=
  .object [("artifact", .text r.artifact), ("package_id", .ofInt r.written.packageId),
    ("package_version_id", .ofInt r.written.versionId), ("modules", .ofNat r.written.modules),
    ("internal_callables", .ofNat r.written.internalCallables),
    ("external_callables", .ofNat r.written.externalCallables), ("edges", .ofNat r.written.edges),
    ("arcs", r.arcs.document), ("attempts", .ofNat r.attempts)]

def Ingest.Notification.document (n : Ingest.Notification) : Value :=
  .object [("product", .text n.product), ("forge", .text n.forge), ("version", .text n.version),
    ("generator", .text n.generator), ("package_id", .ofInt n.packageId),
    ("package_version_id", .ofInt n.versionId)]

/-- The counted tables by name. -/
def Store.Counts.rows (c : Store.Counts) : List (String × Nat) :=
  Store.Database.countedTables.zip
    [c.packages, c.versions, c.dependencies, c.modules, c.files, c.callables, c.edges]

def Store.Counts.document (c : Store.Counts) (size : Nat) : Value :=
  .object (c.rows.map (fun r => (r.1, .ofNat r.2)) ++ [("db_size_bytes", .ofNat size)])

namespace CommandLine

open Usage (padLeft padRight)

def line (s : String) : String := s ++ "\n"

/-- What is printed about a failure. Where in the driver it panics is left out. -/
def CommandError.report (e : CommandError) : String :=
  match e with
  | .timeoutTooLong => line s!"thread 'main' panicked: {e.message}"
  | e => line s!"Error: {e.message}"

def lines (ss : List String) : String := String.join (ss.map line)

/-- A document as it is printed. -/
def documentText (v : Value) : String := line v.pretty

/-- The reasons for which arcs were dropped, indented. -/
def rejectionLines (indent : String) (r : ArcReport) : List String :=
  r.rejections.map fun e => s!"{indent}{padRight 22 e.1.name} {padLeft 6 (toString e.2)}"

/-! ## Ingestion -/

def summaryText (s : Ingest.Summary) : String :=
  lines (
    [s!"Ingested {s.succeeded} of {s.total} records"]
    ++ s.failures.map (fun f => s!"  failed ({f.1.name}): {f.2}")
    ++ [s!"  arcs: {s.arcs.accepted} accepted, {s.arcs.rejectedCount} rejected"]
    ++ rejectionLines "    " s.arcs
    ++ s.outcomes.filterMap fun o => o.message.map fun m => s!"  {o.label}: {m}")

/-! ## Validation -/

/-- A record that has been validated: what the report says of it. -/
structure ValidFile where
  artifact : String
  methods : Nat
  arcs : ArcReport

/-- What became of the record in a file. -/
structure FileReport where
  file : String
  result : Except String ValidFile

structure ValidationSummary where
  files : List FileReport

namespace FileReport

def valid? (r : FileReport) : Option ValidFile := r.result.toOption

def error? (r : FileReport) : Option String :=
  match r.result with
  | .ok _ => none
  | .error text => some text

def document (r : FileReport) : Value :=
  .object [("file", .text r.file), ("artifact", optionalValue (fun v => .text v.artifact) r.valid?),
    ("methods", .ofNat ((r.valid?.map (·.methods)).getD 0)),
    ("arcs", optionalValue (fun v => v.arcs.document) r.valid?),
    ("error", optionalValue .text r.error?)]

def text (r : FileReport) : String :=
  match r.result with
  | .ok v =>
    s!"{r.file}: {v.artifact} ({v.methods} methods, {v.arcs.accepted} arcs accepted, "
      ++ s!"{v.arcs.rejectedCount} rejected)"
  | .error e => s!"{r.file}: invalid: {e}"

end FileReport

namespace ValidationSummary

def validFiles (s : ValidationSummary) : List ValidFile := s.files.filterMap (·.valid?)

def valid (s : ValidationSummary) : Nat := s.validFiles.length

def invalid (s : ValidationSummary) : Nat := (s.files.filterMap (·.error?)).length

def arcs (s : ValidationSummary) : ArcReport :=
  (s.validFiles.map (·.arcs)).foldl ArcReport.merge .empty

def document (s : ValidationSummary) : Value :=
  .object [("valid", .ofNat s.valid), ("invalid", .ofNat s.invalid), ("arcs", s.arcs.document),
    ("files", .array (s.files.map (·.document)))]

def text (s : ValidationSummary) : String :=
  let arcs := s.arcs
  lines (s.files.map (·.text)
    ++ ["", s!"{s.valid} valid, {s.invalid} invalid; arcs: {arcs.accepted} accepted, "
      ++ s!"{arcs.rejectedCount} rejected"]
    ++ rejectionLines "  " arcs)

end ValidationSummary

/-! ## Status -/

/-- A quotient with one decimal place, a half going to the even neighbour. -/
def tenths (num den : Nat) : String :=
  let n := Decimal.Binary64.roundDiv (10 * num) den
  s!"{n / 10}.{n % 10}"

def sizeText (bytes : Nat) : String :=
  if bytes < 1024 then s!"{bytes} B"
  else if bytes < 1024 * 1024 then s!"{tenths bytes 1024} KB"
  else s!"{tenths bytes (1024 * 1024)} MB"

def countLine (table : String) (count : Nat) : String :=
  s!"    {padRight 20 table} {padLeft 8 (toString count)}"

def statusText (path : String) (size : Nat) (c : Store.Counts) : String :=
  lines (
    ["metadb status", "", s!"  Database: {path}"]
    ++ (if size = 0 then [] else [s!"  Size:     {sizeText size}"])
    ++ [""] ++ c.rows.map (fun r => countLine r.1 r.2) ++ [countLine "total" c.total])

example : sizeText 512 = "512 B" ∧ sizeText 2048 = "2.0 KB" := by decide +kernel

end CommandLine

end CallArchive
