import SurfaceReport.CommandLine
import SurfaceReport.Proofs.ByteOrder

/-!
# Arguments in any order

What a run is asked for can be asked in any order, and a namespace may be
called anything, also what another option is called: no option takes the
words of another (`parse_of_perm`).

Between two requests something may be pending still. So what is kept is
not what the reading holds by then but what it would come to if the
arguments ended there (`Reading.Stands`). The next request settles what is
pending as the end would.
-/

namespace SurfaceReport

namespace CommandLine

/-! ## Requests -/

/-- An argument that is no option. -/
structure Value where
  bytes : Bytes
  ne_nil : bytes ≠ []
  head_ne : bytes.head? ≠ some Reading.dash
  deriving DecidableEq

/-- One thing that a run can be asked for. -/
inductive Request where
  | file (path : Value)
  | ns (name : String)
  | logDirectory (directory : Value)
  | verbose (short : Bool)
  deriving DecidableEq

namespace Request

def slot : Request → Slot
  | file _ => .file
  | ns _ => .ns
  | logDirectory _ => .logDirectory
  | verbose _ => .verbose

/-- The arguments that ask for it. -/
def words : Request → List Bytes
  | file path => [path.bytes]
  | ns name => [Utf8.encode "--namespace", Utf8.encode name]
  | logDirectory directory => [Utf8.encode "--log-dir", directory.bytes]
  | verbose short => [if short then Utf8.encode "-v" else Utf8.encode "--verbose"]

def put (a : Arguments) : Request → Arguments
  | file path => { a with path := some ⟨path.bytes⟩ }
  | ns name => { a with ns := some name }
  | logDirectory directory => { a with logDirectory := some ⟨directory.bytes⟩ }
  | verbose _ => { a with verbose := true }

end Request

/-- The place is filled, so that nothing else can be put there. -/
def Arguments.isFilled (a : Arguments) : Slot → Bool
  | .file => a.path.isSome
  | .ns => a.ns.isSome
  | .logDirectory => a.logDirectory.isSome
  | .verbose => a.verbose
  | .help | .version => false

theorem Request.isFilled_put (request : Request) (a : Arguments) {slot : Slot}
    (h : slot ≠ request.slot) : (request.put a).isFilled slot = a.isFilled slot := by
  cases request <;> cases slot <;> first | rfl | exact absurd rfl h

/-- Requests for different places do not get into each other's way. -/
theorem Request.put_comm {first second : Request} (h : first.slot ≠ second.slot)
    (a : Arguments) : second.put (first.put a) = first.put (second.put a) := by
  cases first <;> cases second <;> first | rfl | exact absurd rfl h

/-- Where the requests are for different places, their order is no matter. -/
theorem Request.foldl_put_perm {order requests : List Request} (horder : order.Perm requests)
    (hslots : order.Pairwise fun first second => first.slot ≠ second.slot) (a : Arguments) :
    order.foldl Request.put a = requests.foldl Request.put a := by
  have hcomm : ∀ ⦃first⦄, first ∈ order → ∀ ⦃second⦄, second ∈ order →
      ∀ a, second.put (first.put a) = first.put (second.put a) :=
    List.Pairwise.forall_of_forall_of_flip (fun _ _ _ => rfl)
      (hslots.imp fun h => put_comm h) (hslots.imp fun h => put_comm h.symm)
  exact horder.foldl_eq' (fun first hfirst second hsecond a => hcomm hfirst hsecond a) a

/-! ## One request -/

namespace Reading

/-- If the arguments ended here they would come to these, and no option waits for its value. -/
structure Stands (r : Reading) (a : Arguments) : Prop where
  settle_eq : r.pending.settle r.arguments = .ok a
  fileGiven_eq : r.fileGiven = a.path.isSome
  optionsEnded_eq : r.optionsEnded = false
  ns_ne : r.pending ≠ .ns none
  logDirectory_ne : r.pending ≠ .logDirectory none

variable {r later : Reading} {a : Arguments}

theorem finish_of_next {argument : Bytes} (h : r.next argument = .ok later) (rest : List Bytes) :
    r.finish (argument :: rest) = later.finish rest := by
  rw [finish, h]
  rfl

/-- A value goes where the option before it waits for it, or else it is the file. -/
theorem next_value (r : Reading) (hopen : r.optionsEnded = false) (hns : r.pending ≠ .ns none)
    (value : Value) : r.next value.bytes = r.otherArgument value.bytes := by
  obtain ⟨bytes, hne, hhead⟩ := value
  unfold next
  rw [if_neg (ne_true_of_eq_false hopen), if_neg hns]
  rcases bytes with _ | ⟨first, _ | ⟨second, rest⟩⟩
  · exact absurd rfl hne
  · rfl
  · have hdash : first ≠ dash := fun hdash => hhead (congrArg some hdash)
    dsimp only
    rw [if_neg (not_and_of_not_left _ hdash), if_neg hdash]

namespace Stands

theorem expect_eq (h : r.Stands a) (next : Pending) :
    r.expect next = .ok { r with pending := next, arguments := a } := by
  rw [expect, h.settle_eq]
  rfl

/-- An option is looked up by its name, when nothing waits for it as its value. -/
theorem next_long (h : r.Stands a) {name : Bytes} (hne : name ≠ [])
    (hsplit : splitValue name = (name, none)) :
    r.next (dash :: dash :: name) = r.longOption name none := by
  unfold next
  rw [if_neg (ne_true_of_eq_false h.optionsEnded_eq), if_neg h.ns_ne]
  dsimp only
  rw [if_pos ⟨rfl, rfl⟩, if_neg hne, hsplit]

theorem next_ns (h : r.Stands a) :
    r.next (Utf8.encode "--namespace") = .ok { r with pending := .ns none, arguments := a } := by
  rw [show Utf8.encode "--namespace" = dash :: dash :: Utf8.encode "namespace" by decide +kernel,
    h.next_long (by decide +kernel) (by decide +kernel)]
  unfold longOption
  rw [if_pos rfl, if_neg (by decide), h.expect_eq]

theorem next_logDirectory (h : r.Stands a) :
    r.next (Utf8.encode "--log-dir")
      = .ok { r with pending := .logDirectory none, arguments := a } := by
  rw [show Utf8.encode "--log-dir" = dash :: dash :: Utf8.encode "log-dir" by decide +kernel,
    h.next_long (by decide +kernel) (by decide +kernel)]
  unfold longOption
  rw [if_neg (by decide +kernel), if_pos rfl, if_neg (by decide), h.expect_eq]

theorem setVerbose_eq (h : r.Stands a) (hfree : a.verbose = false) : r.setVerbose
    = .ok { r with pending := .nothing, arguments := { a with verbose := true } } := by
  rw [setVerbose, h.expect_eq]
  change (if a.verbose = true then _ else _) = _
  rw [hfree, if_neg (by decide)]
  rfl

theorem next_verbose (h : r.Stands a) (hfree : a.verbose = false) (short : Bool) :
    r.next (if short then Utf8.encode "-v" else Utf8.encode "--verbose")
      = .ok { r with pending := .nothing, arguments := { a with verbose := true } } := by
  cases short with
  | true =>
      rw [if_pos rfl, show Utf8.encode "-v" = [dash, 'v'.toUInt8] by decide +kernel]
      unfold next
      rw [if_neg (ne_true_of_eq_false h.optionsEnded_eq), if_neg h.ns_ne]
      dsimp only
      rw [if_neg (by decide), if_pos rfl]
      unfold shortOptions
      rw [if_pos rfl, h.setVerbose_eq hfree]
      rfl
  | false =>
      rw [if_neg (by decide), show Utf8.encode "--verbose"
          = dash :: dash :: Utf8.encode "verbose" by decide +kernel,
        h.next_long (by decide +kernel) (by decide +kernel)]
      unfold longOption
      rw [if_neg (by decide +kernel), if_neg (by decide +kernel), if_pos rfl]
      exact h.setVerbose_eq hfree

/-- The words that ask for one thing more lead to where it is asked for as well. -/
theorem finish_words (h : r.Stands a) (request : Request)
    (hfree : a.isFilled request.slot = false) (rest : List Bytes) :
    ∃ later : Reading, r.finish (request.words ++ rest) = later.finish rest
      ∧ later.Stands (request.put a) := by
  cases request with
  | file path =>
      have hpath : a.path.isSome = false := hfree
      have hnext : r.next path.bytes
          = .ok { r with pending := .file path.bytes, arguments := a, fileGiven := true } := by
        rw [next_value r h.optionsEnded_eq h.ns_ne, otherArgument, if_neg h.logDirectory_ne,
          plainArgument, h.fileGiven_eq, hpath, if_neg (by decide), h.expect_eq]
        rfl
      refine ⟨_, finish_of_next hnext rest, ?_, rfl, h.optionsEnded_eq, nofun, nofun⟩
      dsimp only
      rw [Pending.settle, hpath, if_neg (by decide), if_neg path.ne_nil]
      rfl
  | ns name =>
      have hns : a.ns.isSome = false := hfree
      -- The option waits, so that whatever comes next is its value.
      have hname : ({ r with pending := .ns none, arguments := a } : Reading).next
          (Utf8.encode name)
            = .ok { r with pending := .ns (some (Utf8.encode name)), arguments := a } := by
        unfold next
        rw [if_neg (ne_true_of_eq_false h.optionsEnded_eq), if_pos rfl]
      refine ⟨_, (finish_of_next h.next_ns _).trans (finish_of_next hname rest), ?_,
        h.fileGiven_eq, h.optionsEnded_eq, nofun, nofun⟩
      dsimp only
      rw [Pending.settle, hns, if_neg (by decide), Option.getD_some, Utf8.text?_encode]
      rfl
  | logDirectory directory =>
      have hdirectory : a.logDirectory.isSome = false := hfree
      -- A value that were an option would not be taken.
      have hvalue : ({ r with pending := .logDirectory none, arguments := a } : Reading).next
          directory.bytes = .ok { r with
            pending := .logDirectory (some directory.bytes), arguments := a } := by
        rw [next_value { r with pending := .logDirectory none, arguments := a } h.optionsEnded_eq
          nofun, otherArgument, if_pos rfl]
      refine ⟨_, (finish_of_next h.next_logDirectory _).trans (finish_of_next hvalue rest), ?_,
        h.fileGiven_eq, h.optionsEnded_eq, nofun, nofun⟩
      dsimp only
      rw [Pending.settle, hdirectory, if_neg (by decide), if_neg directory.ne_nil]
      rfl
  | verbose short =>
      refine ⟨_, finish_of_next (h.next_verbose hfree short) rest, ?_⟩
      exact ⟨rfl, h.fileGiven_eq, h.optionsEnded_eq, nofun, nofun⟩

/-- Requests for different places, and for none that is filled, lead to where all are asked for. -/
theorem finish_flatMap_words (h : r.Stands a) {order : List Request}
    (hfree : ∀ request ∈ order, a.isFilled request.slot = false)
    (hslots : order.Pairwise fun first second => first.slot ≠ second.slot) :
    r.finish (order.flatMap Request.words) = .ok (order.foldl Request.put a) := by
  induction order generalizing r a with
  | nil => exact h.settle_eq
  | cons request rest ih =>
      rw [List.forall_mem_cons] at hfree
      rw [List.pairwise_cons] at hslots
      rw [List.flatMap_cons, List.foldl_cons]
      obtain ⟨later, hfinish, hlater⟩ :=
        h.finish_words request hfree.1 (rest.flatMap Request.words)
      refine hfinish.trans (ih hlater (fun other hother => ?_) hslots.2)
      rw [request.isFilled_put a (hslots.1 other hother).symm]
      exact hfree.2 other hother

theorem start : ({} : Reading).Stands {} := ⟨rfl, rfl, rfl, nofun, nofun⟩

end Stands

end Reading

/-! ## All requests -/

/-- What a user wants to be done. -/
structure Wish where
  path : Value
  ns : Option String := none
  logDirectory : Option Value := none
  /-- Diagnostics are wanted, and the short option is used to say so. -/
  verbose : Option Bool := none

namespace Wish

def requests (wish : Wish) : List Request :=
  .file wish.path :: (wish.ns.map Request.ns).toList
    ++ (wish.logDirectory.map Request.logDirectory).toList
    ++ (wish.verbose.map Request.verbose).toList

def arguments (wish : Wish) : Arguments where
  path := some ⟨wish.path.bytes⟩
  ns := wish.ns
  logDirectory := wish.logDirectory.map fun directory => ⟨directory.bytes⟩
  verbose := wish.verbose.isSome

theorem foldl_put_requests (wish : Wish) : wish.requests.foldl Request.put {} = wish.arguments := by
  obtain ⟨path, _ | name, _ | directory, _ | short⟩ := wish <;> rfl

theorem pairwise_slot_requests (wish : Wish) :
    wish.requests.Pairwise fun first second => first.slot ≠ second.slot := by
  obtain ⟨path, _ | name, _ | directory, _ | short⟩ := wish <;>
    simp [requests, Request.slot]

/-- **In whatever order something is asked for, it is what is read.** -/
theorem parse_of_perm (wish : Wish) {order : List Request} (horder : order.Perm wish.requests) :
    parse (order.flatMap Request.words) = .ok wish.arguments
      ∧ wish.arguments.config? = some ⟨⟨wish.path.bytes⟩, .ofArgument wish.ns,
          wish.logDirectory.map fun directory => ⟨directory.bytes⟩⟩ := by
  have hslots : order.Pairwise fun first second => first.slot ≠ second.slot :=
    (horder.pairwise_iff fun h => h.symm).mpr wish.pairwise_slot_requests
  have hfree : ∀ request ∈ order, ({} : Arguments).isFilled request.slot = false := by
    intro request _
    cases request <;> rfl
  have hread : parse (order.flatMap Request.words) = .ok (order.foldl Request.put {}) :=
    Reading.Stands.start.finish_flatMap_words hfree hslots
  rw [hread, Request.foldl_put_perm horder hslots, foldl_put_requests]
  exact ⟨rfl, rfl⟩

/-- The namespace is called what the next option but one is called. -/
theorem parse_of_option_like_name :
    let game : Value := ⟨Utf8.encode "Game.dll", by decide +kernel, by decide +kernel⟩
    let logs : Value := ⟨Utf8.encode "logs", by decide +kernel, by decide +kernel⟩
    let wish : Wish := ⟨game, some "--log-dir", some logs, some true⟩
    let order : List Request := [.ns "--log-dir", .verbose true, .logDirectory logs, .file game]
    order.Perm wish.requests
      ∧ order.flatMap Request.words = ["--namespace", "--log-dir", "-v", "--log-dir", "logs",
          "Game.dll"].map Utf8.encode
      ∧ parse (order.flatMap Request.words)
          = .ok ⟨some (.ofText "Game.dll"), some "--log-dir", some (.ofText "logs"), true⟩ := by
  intro game logs wish order
  have horder : order.Perm wish.requests := by decide +kernel
  exact ⟨horder, rfl, (wish.parse_of_perm horder).1⟩

end Wish

end CommandLine

end SurfaceReport
