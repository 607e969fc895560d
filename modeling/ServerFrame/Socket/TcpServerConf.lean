import ServerFrame.Config.LexicalCast

/-!
# `LexicalCast` of `TcpServerConf`

How an integer is written as a scalar and read from one is a parameter, as the library for
trees is.
-/
namespace ServerFrame.Tcp

open Config Containers

abbrev Int32Value : Type := IntType.int32.Value

structure TcpServerConf where
  address : List String
  keepalive : Int32Value
  timeout : Int32Value
  ssl : Int32Value
  id : String
  type : String
  name : String
  certFile : String
  keyFile : String
  acceptWorker : String
  ioWorker : String
  processWorker : String
  args : StdMap String

/-- The defaults of the fields. -/
def TcpServerConf.new : TcpServerConf where
  address := []
  keepalive := ⟨0, by decide⟩
  timeout := ⟨1000 * 2 * 60, by decide⟩
  ssl := ⟨0, by decide⟩
  id := ""
  type := "tcp"
  name := ""
  certFile := ""
  keyFile := ""
  acceptWorker := ""
  ioWorker := ""
  processWorker := ""
  args := Tree.empty

/-- `boost::lexical_cast` from a string to a string. -/
def castString : Cast String := ⟨some, some⟩

namespace TcpServerConf

/-- `node[key].as<std::string>(fallback)`. -/
def stringAt (node : Config.Node) (key fallback : String) : Option String := do
  pure ((Config.Node.asString (← node.get key)).getD fallback)

/-- `node[key].as<int>(fallback)`. -/
def intAt (numbers : Lexical) (node : Config.Node) (key : String) (fallback : Int32Value) :
    Option Int32Value := do
  pure (((Config.Node.asString (← node.get key)).bind (numbers.parse .int32)).getD fallback)

/-- The addresses, if there are any. -/
def addressOf (node : Config.Node) : Option (List String) := do
  match ← node.get "address" with
  | none => pure new.address
  | some address => (← address.items).mapM fun item => Config.Node.asString (some item)

/-- `LexicalCast<std::string, TcpServerConf>`, which may throw. -/
def fromText (yaml : Yaml) (numbers : Lexical) (v : String) : Option TcpServerConf := do
  let node ← yaml.load v
  let id ← stringAt node "id" new.id
  let type ← stringAt node "type" new.type
  let keepalive ← intAt numbers node "keepalive" new.keepalive
  let timeout ← intAt numbers node "timeout" new.timeout
  let name ← stringAt node "name" new.name
  let ssl ← intAt numbers node "ssl" new.ssl
  let certFile ← stringAt node "cert_file" new.certFile
  let keyFile ← stringAt node "key_file" new.keyFile
  let acceptWorker ← Config.Node.asString (← node.get "accept_worker")
  let ioWorker ← Config.Node.asString (← node.get "io_worker")
  let processWorker ← Config.Node.asString (← node.get "process_worker")
  let args ← (Cast.map yaml castString).fromText (← stringAt node "args" "")
  let address ← addressOf node
  pure ⟨address, keepalive, timeout, ssl, id, type, name, certFile, keyFile, acceptWorker, ioWorker,
    processWorker, args⟩

/-- The entries that are always written, with this one for `args`. -/
def entries (numbers : Lexical) (conf : TcpServerConf) (args : Config.Node) :
    List (String × Config.Node) :=
  [("id", .scalar conf.id), ("type", .scalar conf.type), ("name", .scalar conf.name),
    ("keepalive", .scalar (numbers.print conf.keepalive.1)),
    ("timeout", .scalar (numbers.print conf.timeout.1)),
    ("ssl", .scalar (numbers.print conf.ssl.1)),
    ("cert_file", .scalar conf.certFile), ("key_file", .scalar conf.keyFile),
    ("accept_worker", .scalar conf.acceptWorker), ("io_worker", .scalar conf.ioWorker),
    ("process_worker", .scalar conf.processWorker), ("args", args)]

/-- The tree of a configuration. -/
def node (numbers : Lexical) (conf : TcpServerConf) (args : Config.Node) : Config.Node :=
  .map (conf.entries numbers args ++
    if conf.address ≠ [] then [("address", .sequence (conf.address.map .scalar))] else [])

/-- `LexicalCast<TcpServerConf, std::string>`, which may throw. -/
def toText (yaml : Yaml) (numbers : Lexical) (conf : TcpServerConf) : Option String := do
  let args ← yaml.load (← (Cast.map yaml castString).toText conf.args)
  pure (yaml.emit (conf.node numbers args))

end TcpServerConf

/-! ## The round trip -/

/-- The tree of the arguments. -/
def argsNode (args : StdMap String) : Config.Node :=
  .map (args.elems.map fun entry => (entry.1, .scalar entry.2))

section RoundTrip

variable {yaml : Yaml} {numbers : Lexical} {conf : TcpServerConf}

theorem args_toText {args : StdMap String}
    (scalars : ∀ entry ∈ args.elems, yaml.load entry.2 = some (.scalar entry.2)) :
    (Cast.map yaml castString).toText args = some (yaml.emit (argsNode args)) := by
  have assigned := assign_entries yaml castString .scalar args.elems [] scalars
    (distinct_of_tree args)
  dsimp only [Cast.map, Cast.mapping]
  rw [assigned]
  rfl

/-- From a text without entries an empty map is read. -/
theorem args_fromText {text : String} (empty : (yaml.load text).bind Config.Node.entries = some []) :
    (Cast.map yaml castString).fromText text = some Tree.empty := by
  obtain ⟨node, loads, nothing⟩ := Option.bind_eq_some_iff.mp empty
  dsimp only [Cast.map, Cast.mapping]
  rw [loads]
  simp [nothing]
  rfl

theorem address_read (address : List String) :
    (address.map Config.Node.scalar).mapM (fun item => Config.Node.asString (some item)) =
      some address := by
  induction address with
  | nil => rfl
  | cons host address ih =>
    rw [List.map_cons, List.mapM_cons, ih]
    rfl

theorem bind_read {α β : Type} (value : α) (rest : α → Option β) :
    (some value >>= rest) = rest value := rfl

theorem get_entry (c : TcpServerConf) (numbers : Lexical) (args : Config.Node) (key : String)
    (value : Config.Node) (member : (key, value) ∈ c.entries numbers args) :
    (c.node numbers args).get key = some (some value) :=
  Config.Node.get_of_mem (by simp [TcpServerConf.entries]) member

theorem get_address (args : Config.Node) : (conf.node numbers args).get "address" =
    some (if conf.address ≠ [] then some (.sequence (conf.address.map .scalar)) else none) := by
  by_cases unbound : conf.address = [] <;> simp [TcpServerConf.node, TcpServerConf.entries, unbound]

theorem stringAt_entry {args : Config.Node} {key value : String} (fallback : String)
    (member : (key, .scalar value) ∈ conf.entries numbers args) :
    TcpServerConf.stringAt (conf.node numbers args) key fallback = some value := by
  rw [TcpServerConf.stringAt, get_entry conf numbers args key _ member]
  rfl

theorem intAt_entry (parses : ∀ i : Int32Value, numbers.parse .int32 (numbers.print i.1) = some i)
    {args : Config.Node} {key : String} {value : Int32Value} (fallback : Int32Value)
    (member : (key, .scalar (numbers.print value.1)) ∈ conf.entries numbers args) :
    TcpServerConf.intAt numbers (conf.node numbers args) key fallback = some value := by
  rw [TcpServerConf.intAt, get_entry conf numbers args key _ member]
  simp [Config.Node.asString, parses]

/-- The arguments are a map and are read as a scalar. -/
theorem stringAt_args (written : List (String × Config.Node)) (fallback : String) :
    TcpServerConf.stringAt (conf.node numbers (.map written)) "args" fallback = some fallback := by
  rw [TcpServerConf.stringAt, get_entry conf numbers _ "args" (.map written)
    (by simp [TcpServerConf.entries])]
  rfl

theorem addressOf_node (args : Config.Node) :
    TcpServerConf.addressOf (conf.node numbers args) = some conf.address := by
  rw [TcpServerConf.addressOf, get_address]
  by_cases unbound : conf.address = []
  · simp [unbound, TcpServerConf.new]
  · simpa [unbound, Config.Node.items] using address_read conf.address

/-- A configuration comes back without its arguments. -/
theorem fromText_node (parses : ∀ i : Int32Value, numbers.parse .int32 (numbers.print i.1) = some i)
    {text : String} {written : List (String × Config.Node)}
    (loads : yaml.load text = some (conf.node numbers (.map written)))
    (empty : (yaml.load "").bind Config.Node.entries = some []) :
    TcpServerConf.fromText yaml numbers text = some { conf with args := Tree.empty } := by
  have string : ∀ (key value fallback : String),
      (key, .scalar value) ∈ conf.entries numbers (.map written) →
      TcpServerConf.stringAt (conf.node numbers (.map written)) key fallback = some value :=
    fun _ _ => stringAt_entry
  have int : ∀ (key : String) (value fallback : Int32Value),
      (key, .scalar (numbers.print value.1)) ∈ conf.entries numbers (.map written) →
      TcpServerConf.intAt numbers (conf.node numbers (.map written)) key fallback = some value :=
    fun _ _ => intAt_entry parses
  have required : ∀ key value : String,
      (key, .scalar value) ∈ conf.entries numbers (.map written) →
      (conf.node numbers (.map written)).get key = some (some (.scalar value)) :=
    fun _ _ => get_entry conf numbers _ _ _
  simp only [TcpServerConf.entries] at string int required
  rw [TcpServerConf.fromText, loads, bind_read]
  rw [string "id" conf.id _ (by simp), bind_read]
  rw [string "type" conf.type _ (by simp), bind_read]
  rw [int "keepalive" conf.keepalive _ (by simp), bind_read]
  rw [int "timeout" conf.timeout _ (by simp), bind_read]
  rw [string "name" conf.name _ (by simp), bind_read]
  rw [int "ssl" conf.ssl _ (by simp), bind_read]
  rw [string "cert_file" conf.certFile _ (by simp), bind_read]
  rw [string "key_file" conf.keyFile _ (by simp), bind_read]
  rw [required "accept_worker" conf.acceptWorker (by simp), bind_read]
  rw [Config.Node.asString, bind_read]
  rw [required "io_worker" conf.ioWorker (by simp), bind_read]
  rw [Config.Node.asString, bind_read]
  rw [required "process_worker" conf.processWorker (by simp), bind_read]
  rw [Config.Node.asString, bind_read]
  rw [stringAt_args, bind_read, args_fromText empty, bind_read]
  rw [addressOf_node, bind_read]
  rfl

/-- Writing a configuration and reading it again. -/
theorem conf_reread (yaml : Yaml) (numbers : Lexical) (conf : TcpServerConf)
    (parses : ∀ i : Int32Value, numbers.parse .int32 (numbers.print i.1) = some i)
    (scalars : ∀ entry ∈ conf.args.elems, yaml.load entry.2 = some (.scalar entry.2))
    (loadsArgs : yaml.load (yaml.emit (argsNode conf.args)) = some (argsNode conf.args))
    (loads : yaml.load (yaml.emit (conf.node numbers (argsNode conf.args))) =
      some (conf.node numbers (argsNode conf.args)))
    (empty : (yaml.load "").bind Config.Node.entries = some []) :
    (conf.toText yaml numbers).bind (TcpServerConf.fromText yaml numbers) =
      some { conf with args := Tree.empty } := by
  have written : conf.toText yaml numbers =
      some (yaml.emit (conf.node numbers (argsNode conf.args))) := by
    rw [TcpServerConf.toText, args_toText scalars, bind_read, loadsArgs, bind_read]
    rfl
  rw [written, Option.bind_some, fromText_node parses loads empty]

/-- Only a configuration without arguments comes back. -/
theorem conf_comes_back_iff (yaml : Yaml) (numbers : Lexical) (conf : TcpServerConf)
    (parses : ∀ i : Int32Value, numbers.parse .int32 (numbers.print i.1) = some i)
    (scalars : ∀ entry ∈ conf.args.elems, yaml.load entry.2 = some (.scalar entry.2))
    (loadsArgs : yaml.load (yaml.emit (argsNode conf.args)) = some (argsNode conf.args))
    (loads : yaml.load (yaml.emit (conf.node numbers (argsNode conf.args))) =
      some (conf.node numbers (argsNode conf.args)))
    (empty : (yaml.load "").bind Config.Node.entries = some []) :
    (conf.toText yaml numbers).bind (TcpServerConf.fromText yaml numbers) = some conf ↔
      conf.args.elems = [] := by
  rw [conf_reread yaml numbers conf parses scalars loadsArgs loads empty, Option.some.injEq]
  constructor
  · intro same
    rw [← same]
    rfl
  · intro none
    have args : conf.args = Tree.empty := Tree.ext none
    rw [← args]

end RoundTrip

/-- Integers in decimal notation. -/
def decimal : Lexical where
  print := Int.repr
  parse k text := text.toInt?.bind fun i =>
    if fits : k.min ≤ i ∧ i ≤ k.max then some ⟨i, fits⟩ else none

theorem decimal_parses (i : Int32Value) : decimal.parse .int32 (decimal.print i.1) = some i := by
  obtain ⟨i, fits⟩ := i
  simp [decimal, Int.toInt?_repr, fits]

def echoConf (args : StdMap String) : TcpServerConf :=
  { TcpServerConf.new with
    address := ["127.0.0.1:8080"], id := "1", name := "echo", acceptWorker := "accept"
    ioWorker := "io", processWorker := "process", args := args }

def echoText (args : String) : String :=
  "id: 1\ntype: tcp\nname: echo\nkeepalive: 0\ntimeout: 120000\nssl: 0\ncert_file: \"\"\n" ++
  "key_file: \"\"\naccept_worker: accept\nio_worker: io\nprocess_worker: process\nargs:\n  " ++
  args ++ "\naddress:\n" ++ "  - 127.0.0.1:8080"

theorem length_address (head : String) : 17 < (head ++ "  - 127.0.0.1:8080").length := by
  have last : "  - 127.0.0.1:8080".length = 18 := rfl
  rw [String.length_append, last]
  omega

theorem echoText_ne {args short : String} (size : short.length ≤ 17) : echoText args ≠ short := by
  intro same
  have long : 17 < (echoText args).length := length_address _
  rw [same] at long
  exact Nat.not_lt.mpr size long

/-- A library that knows the trees of one configuration. -/
def echoYaml (args : String) (argsTree tree : Config.Node) : Yaml where
  emit
    | .scalar v => v
    | .sequence _ => echoText args
    | .map entries => if entries.length < 2 then args else echoText args
  load v :=
    if v = echoText args then some tree
    else if v = args then some argsTree
    else if v = "" then some (.map [])
    else some (.scalar v)

theorem echoYaml_loads {args : String} {argsTree : Config.Node}
    {entries : List (String × Config.Node)} (long : 2 ≤ entries.length) :
    (echoYaml args argsTree (.map entries)).load
      ((echoYaml args argsTree (.map entries)).emit (.map entries)) = some (.map entries) := by
  have emitted : (echoYaml args argsTree (.map entries)).emit (.map entries) = echoText args :=
    if_neg (Nat.not_lt.mpr long)
  have loaded : ∀ v, v = echoText args →
      (echoYaml args argsTree (.map entries)).load v = some (.map entries) :=
    fun _ known => if_pos known
  exact loaded _ emitted

theorem conf_comes_back_iff_echo :
    let conf := echoConf Tree.empty
    let yaml := echoYaml "\x7b\x7d" (.map []) (conf.node decimal (.map []))
    (conf.toText yaml decimal).bind (TcpServerConf.fromText yaml decimal) = some conf := by
  intro conf yaml
  have short : ∀ v : String, v.length ≤ 17 → yaml.load v =
      if v = "\x7b\x7d" then some (.map []) else if v = "" then some (.map []) else some (.scalar v) :=
    fun v size => if_neg (echoText_ne size).symm
  refine (conf_comes_back_iff yaml decimal conf decimal_parses ?_ ?_ ?_ ?_).mpr rfl
  · intro entry member
    exact absurd member List.not_mem_nil
  · exact short "\x7b\x7d" (by decide)
  · exact echoYaml_loads (by simp [TcpServerConf.entries])
  · rw [short "" (by decide)]
    rfl

/-- A configuration with an argument comes back without it. -/
theorem argument_lost :
    let conf := echoConf ⟨[("a", "b")], List.pairwise_singleton _ _⟩
    let yaml := echoYaml "a: b" (argsNode conf.args) (conf.node decimal (argsNode conf.args))
    (conf.toText yaml decimal).bind (TcpServerConf.fromText yaml decimal) =
        some (echoConf Tree.empty) ∧
      (conf.toText yaml decimal).bind (TcpServerConf.fromText yaml decimal) ≠ some conf := by
  intro conf yaml
  have short : ∀ v : String, v.length ≤ 17 → yaml.load v =
      if v = "a: b" then some (argsNode conf.args)
      else if v = "" then some (.map []) else some (.scalar v) :=
    fun v size => if_neg (echoText_ne size).symm
  have read : (conf.toText yaml decimal).bind (TcpServerConf.fromText yaml decimal) =
      some (echoConf Tree.empty) := by
    refine conf_reread yaml decimal conf decimal_parses ?_ ?_ ?_ ?_
    · intro entry member
      obtain rfl := List.mem_singleton.mp member
      exact short "b" (by decide)
    · exact short "a: b" (by decide)
    · exact echoYaml_loads (by simp [TcpServerConf.entries])
    · rw [short "" (by decide)]
      rfl
  refine ⟨read, fun same => ?_⟩
  have args : [] = conf.args.elems :=
    congrArg (fun conf => conf.args.elems) (Option.some.inj (read.symm.trans same))
  exact absurd args (by simp [conf, echoConf])

end ServerFrame.Tcp

