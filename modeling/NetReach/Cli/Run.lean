import NetReach.Case
import NetReach.Cli.Arguments
import NetReach.Config.Read
import NetReach.Example
import NetReach.Network.Link
import NetReach.PathGraph.Contraction

/-! # The command line tool

A call is answered by what it prints, together with the reason if it fails. What was printed before
the failure remains. -/

namespace NetReach.Cli

/-- Why a call fails. -/
inductive CliError where
  /-- There is no file to read. -/
  | noFile
  /-- What was read is no configuration. -/
  | invalidDocument
  | unknownExample (name : String)
  /-- A failed link is not of the form `R1:R2`. -/
  | invalidLink (link : String)
  | link (e : LinkError)
  | query (e : QueryError)
  | simulation (e : SimulationError)
  /-- Some cases did not pass. -/
  | checkFailed (failed : Nat)

/-- How the reason of a failure is shown. -/
def CliError.describe : CliError → String
  | noFile => "Io"
  | invalidDocument => "Json"
  | unknownExample name => describeCall "UnknownExample" [quoted name]
  | invalidLink l => describeCall "InvalidLink" [quoted l]
  | link e => e.describe
  | query e => e.describe
  | simulation e => e.describe
  | checkFailed n => describeCall "CheckFailed" [toString n]

/-- What a call comes to. -/
structure Outcome where
  /-- The lines that are printed. -/
  output : List String := []
  error : Option CliError := none

namespace Outcome

/-- Nothing is printed, and the call fails. -/
def failed (e : CliError) : Outcome := ⟨[], some e⟩

end Outcome

/-! ### Choosing the network -/

/-- What is found at a path. -/
inductive PathContent where
  /-- Nothing that can be opened. -/
  | nothing
  /-- Something that can be opened, but holds no text, such as a directory. -/
  | noText
  | text (s : String)

/-- The configuration of a source, where `contentAt` tells what is found at a path. -/
def Source.config (contentAt : String → PathContent) : Source → Except CliError NetworkConfig
  | .file path =>
    match contentAt path with
    | .nothing => .error .noFile
    | .noText => .error .invalidDocument
    | .text s =>
      match NetworkConfig.read s with
      | .error _ => .error .invalidDocument
      | .ok c => .ok c
  | .example name =>
    match Example.byName? name with
    | none => .error (.unknownExample name)
    | some c => .ok c

/-- A failed link of the form `R1:R2`, split at the first colon. -/
def linkOfText? (s : String) : Option (String × String) :=
  let a := s.toList.takeWhile (· ≠ ':')
  let b := (s.toList.dropWhile (· ≠ ':')).drop 1
  if a.isEmpty || b.isEmpty then none else some (String.ofList a, String.ofList b)

/-- The failed links, or the first text that is none. -/
def linksOfTexts : List String → Except CliError (List (String × String))
  | [] => .ok []
  | s :: ss =>
    match linkOfText? s with
    | none => .error (.invalidLink s)
    | some l => (linksOfTexts ss).map (l :: ·)

/-! ### Commands -/

/-- A text printed on a level of its own. -/
def indented (s : String) : String := "    " ++ s

/-- Lines printed as one text; without lines an empty one is printed. -/
def block (lines : List String) : List String := if lines.isEmpty then [""] else lines

/-- Lines printed as one text on a level of their own. -/
def indentedBlock (lines : List String) : List String := (block lines).map indented

/-- The routers, and the domain of every VLAN under a heading of their own. -/
def modelLines (net : Network) (l2 : Layer2) : List String :=
  block net.lines ++ ["", "L2 domains:"] ++ indentedBlock (net.layer2Lines l2)

/-- What is said about the existence of a path. -/
def existenceLines (net : Network) (q : Query) : Option (List Vertex) → List String
  | some p => [q.dst ++ " is reachable from " ++ q.src ++ ":", indented (net.pathText p)]
  | none => [q.dst ++ " is not reachable from " ++ q.src]

/-- What is said about the selected path. -/
def selectionLines (net : Network) (g : PathGraph) (s : Simulation) : List String :=
  match g.bestRoute s, (g.reprocess s).path? with
  | some best, some walk =>
    ["Selected path (" ++ best.signature.text ++ "):",
      indented (" => ".intercalate (net.routerPathNames walk))]
  | some _, none => ["The selected path contains a forwarding loop"]
  | none, _ => ["No path is selected"]

/-- The contracted graph. -/
def contractionLines (net : Network) (g : ChainGraph) : List String :=
  ["", "Contracted graph with " ++ toString g.numChains ++ " vertices and " ++
    toString g.numEdges ++ " edges:"] ++
  g.sortedEdges.map fun e =>
    indented ("[" ++ net.pathText e.tail ++ "] -> [" ++ net.pathText e.head ++ "]")

/-- Answer a query. -/
def runQuery (net : Network) (l2 : Layer2) (q : Query) : Outcome :=
  match linksOfTexts q.fail with
  | .error e => .failed e
  | .ok links =>
    match (net.sceneFor l2 q.dst q.src).build q.variant with
    | .error e => .failed (.query e)
    | .ok w =>
      let g := w.graph
      let f := FailureSet.ofNames net links
      let edges := if q.showEdges then block (net.pathGraphLines g) ++ [""] else []
      let existence := edges ++ existenceLines net q (g.path? f)
      match g.simulate f with
      | .error e => ⟨existence, some (.simulation e)⟩
      | .ok s =>
        let contraction := if q.contract then contractionLines net g.contract else []
        ⟨existence ++ selectionLines net g s ++ contraction, none⟩

/-- The verdict on a case. -/
def verdict : Except CaseError CaseOutcome → String
  | .ok o =>
    if o.passed then "ok"
    else "FAILED (found = " ++ (if o.found then "true" else "false") ++ ", path = " ++
      describeOption (describeList quoted) o.bestPath ++ ")"
  | .error e => "ERROR (" ++ e.message ++ ")"

/-- The case was checked and passed. -/
def hasPassed : Except CaseError CaseOutcome → Bool
  | .ok o => o.passed
  | .error _ => false

/-- Check the cases of a network. -/
def runCheck (net : Network) (l2 : Layer2) (cases : List ReachabilityCase) (variant : Variant) :
    Outcome :=
  let results := cases.map fun c => (c.check net l2 variant).1
  let failed := (results.filter (!hasPassed ·)).length
  let lines := cases.zipWith (fun c r => c.origin ++ " -> " ++ c.destination ++ ": " ++ verdict r)
    results
  let summary := toString (cases.length - failed) ++ " of " ++ toString cases.length ++
    " cases passed"
  ⟨lines ++ [summary], if failed = 0 then none else some (.checkFailed failed)⟩

/-- Carry out a command. -/
def Command.run (c : NetworkConfig) (net : Network) : Command → Outcome
  | .model => ⟨modelLines net (.ofNetwork net), none⟩
  | .taint s =>
    let g := (TaintGraph.ofNetwork net (.ofNetwork net) (some s)).taint
    ⟨block (net.taintLines g), none⟩
  | .query q => runQuery net (.ofNetwork net) q
  | .check variant => runCheck net (.ofNetwork net) c.tests variant

/-- Answer a call, where `contentAt` tells what is found at a path. -/
def Arguments.run (contentAt : String → PathContent) (a : Arguments) : Outcome :=
  match a.source.config contentAt with
  | .error e => .failed e
  | .ok c =>
    match c.link with
    | .error e => .failed (.link e)
    | .ok net => a.command.run c net

/-! ### What the user sees -/

/-- The exit code, and the texts on both streams. -/
structure Response where
  code : Nat
  stdout : String := ""
  stderr : String := ""

/-- The text of printed lines. -/
def textOfLines (lines : List String) : String := String.join (lines.map (· ++ "\n"))

/-- The response to a call; one whose arguments are not in order only has an exit code. -/
def respond (contentAt : String → PathContent) (args : List String) : Response :=
  match Arguments.of? args with
  | none => ⟨2, "", ""⟩
  | some a =>
    let o := a.run contentAt
    match o.error with
    | none => ⟨0, textOfLines o.output, ""⟩
    | some e => ⟨1, textOfLines o.output, "Error: " ++ e.describe⟩

end NetReach.Cli
