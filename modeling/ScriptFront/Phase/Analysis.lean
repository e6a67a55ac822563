import ScriptFront.Check.Statement
import ScriptFront.Module.Files
import ScriptFront.Module.Session
import ScriptFront.Phase.Reading

/-!
The analysis of a program: its imports are bound, its functions, classes and types declared, and its
statements checked. A file that is imported is analysed in the middle of the analysis of the file
that imports it, once in a run.
-/

namespace ScriptFront

/-- A file whose analysis succeeded: all entries of its global scope in order, and its exports. -/
structure AnalyzedModule where
  file : Path
  globals : List Entry
  exports : ExportTable
  deriving Inhabited

/-- The global entry of a name. -/
def AnalyzedModule.global? (m : AnalyzedModule) (name : String) : Option Entry :=
  m.globals.find? (·.name == name)

/-- What is kept of a file from one analysis to the next. -/
structure FileState where
  global : Frame
  imported : List (String × Location)
  errors : Nat
  deriving Inhabited

/-- A file before its first analysis. -/
def FileState.fresh : FileState := ⟨.empty, [], 0⟩

/-- Resolves an import of a file to what it gives, or to the reason why it fails. -/
abbrev Importer := Path → ImportDeclaration → Session → Except SemanticFault ExportTable × Session

/-- A finding in a file as a diagnostic. -/
def Finding.toDiagnostic (file : Path) (f : Finding) : Diagnostic :=
  ⟨f.kind, f.message, file, f.location⟩

namespace Check

/-- Declares what every file knows: the built-in types and a function to print. -/
def builtins : Check Unit := do
  let entries := Primitive.all.map (fun p => Entry.named ⟨p.name, .primitive p, .empty, none⟩)
    ++ [.func (NativeModule.function "print" [("value", .string)] .void)]
  entries.forM fun e => modify fun c =>
    match c.scopes.define e with
    | .ok scopes => { c with scopes := scopes }
    | .error _ => c

/-- Binds a name of an import clause to an exported entry. -/
def bindName (i : ImportDeclaration) (wanted : String) (entry : Option Entry) (name : Ident)
    (place : Location) : Check Unit :=
  match entry with
  | some e => declareImport (e.renamed name.text name.location) true
  | none => error (.missingExport wanted i.source) place

/-- Binds the names that an import brings in: all exports, the default one, and listed ones. -/
def bindImport (i : ImportDeclaration) (exports : ExportTable) : Check Unit := do
  if i.wildcard then
    exports.symbols.forM fun e => declareImport (e.renamed e.name i.location) false
  match i.whole with
  | some name => bindName i "default" exports.default name name.location
  | none => pure ()
  i.named.forM fun s =>
    bindName i s.imported.text (exports.find? s.imported.text) s.binding s.imported.location

/-- Binds an import whose exports are known, or reports why they are not. -/
def importing (i : ImportDeclaration) (exports : Except SemanticFault ExportTable) : Check Unit :=
  match exports with
  | .ok table => bindImport i table
  | .error fault => error fault i.location

/-- Checks the body of a program. -/
def body (p : Program) : Check Unit := do
  hoist p.body
  statements false false p.body

/-- Warns about imported names that the program does not refer to. -/
def unusedImports (p : Program) : Check Unit := do
  let imported := (← get).imported
  if imported.isEmpty then return
  let mentions := p.outline.mentions
  imported.forM fun (name, place) => do
    if !mentions.contains name then warn (.unusedImport name) place

end Check

/-- A check together with the run it belongs to. -/
structure Workspace where
  checker : Checker
  session : Session
  errors : Nat

namespace Workspace

/-- Runs a check and hands its findings to the run. -/
def perform (w : Workspace) (file : Path) (check : Check Unit) : Workspace :=
  let checker := (check.run { w.checker with findings := [] }).2
  { checker := checker
    session := w.session.report (checker.findings.map (·.toDiagnostic file))
    errors := w.errors + (checker.findings.filter (·.isError)).length }

/-- What an import gives: a native module is at hand, a file is up to the importer. -/
def exportsFor (importer : Importer) (file : Path) (i : ImportDeclaration) (s : Session) :
    Except SemanticFault ExportTable × Session :=
  if i.isNative then
    match NativeModule.find? i.source with
    | some m => (.ok (.ofNative m), s)
    | none => (.error (.importNotFound i.source), s)
  else importer file i s

/-- Resolves and binds one import. -/
def bind (importer : Importer) (file : Path) (w : Workspace) (i : ImportDeclaration) : Workspace :=
  let (exports, session) := exportsFor importer file i w.session
  { w with session := session }.perform file (Check.importing i exports)

end Workspace

/-- The result of analysing a file, with what is kept of the file and the run. -/
structure Analyzed where
  result : Except PhaseFailure AnalyzedModule
  state : FileState
  session : Session

/-- Analyses a program as a file, with a given way to resolve its imports. -/
def analyzeWith (importer : Importer) (file : Path) (p : Program) (state : FileState)
    (session : Session) : Analyzed :=
  let checker : Checker := ⟨⟨[], state.global⟩, [], false, state.imported, []⟩
  let w : Workspace := ⟨checker, session.begin file, state.errors⟩
  let w := p.imports.foldl (Workspace.bind importer file) (w.perform file Check.builtins)
  let w := w.perform file (Check.body p)
  let w := { w with session := w.session.finish file }.perform file (Check.unusedImports p)
  let global := w.checker.scopes.global
  let state : FileState := ⟨global, w.checker.imported, w.errors⟩
  if w.errors = 0 then
    ⟨.ok ⟨file, global.entries, .ofProgram p global⟩, state, w.session⟩
  else
    let failure : PhaseFailure := ⟨.analysis, file, w.errors⟩
    ⟨.error failure, state, w.session.report [failure.toDiagnostic]⟩

/-- Reads, parses and analyses a file for the one that imports it. -/
def loadFile (files : Files) (importer : Importer) (source : String) (path : Path) (s : Session) :
    Except SemanticFault ExportTable × Session :=
  let s := s.call (.exists_ path)
  match files.find? path with
  | none => (.error (.importNotFound source), s)
  | some content =>
    let s := s.call (.read path)
    match content with
    | .error reason => (.error (.importFailed source (.unreadable reason)), s)
    | .ok text =>
      let parsed := parseFile path text
      let s := (s.call (.parse path)).report parsed.diagnostics
      match parsed.result with
      | .error _ => (.error (.importFailed source .syntaxErrors), s)
      | .ok program =>
        let a := analyzeWith importer path program .fresh s
        match a.result with
        | .error _ => (.error (.importFailed source .analysisFailed), a.session)
        | .ok m => (.ok m.exports, a.session.store path m.exports)

/--
Resolves imports of files, which may import further ones. A file in progress cannot be imported
again before it is done, so that no chain of imports is longer than there are files.
-/
def importFiles (files : Files) : Nat → Importer
  | 0 => fun _ i s => (.error (.importNotFound i.source), s)
  | depth + 1 => fun file i s =>
    let path := file.resolveImport i.source
    if s.isInProgress path then (.error (.circularImport (s.cycleTo path)), s)
    else match s.exportsOf path with
      | some exports => (.ok exports, s)
      | none => loadFile files (importFiles files depth) i.source path s

/-- Analyses a program as a file, with the files that it may import. -/
def analyze (files : Files) (file : Path) (p : Program) (state : FileState) (session : Session) :
    Analyzed :=
  analyzeWith (importFiles files (files.size + 1)) file p state session

end ScriptFront
