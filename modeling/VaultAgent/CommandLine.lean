import VaultAgent.Config

/-!
# The command line

Arguments are judged from left to right. A flag that takes a value and has none attached waits for
the next argument; it counts once the next flag is known or the arguments end, so a fault in it
gives way to an unknown argument that follows. What is not given may come from the environment.
-/

namespace VaultAgent.CommandLine

/-- A flag that takes a value. -/
inductive ValueFlag
  | config
  | vaultSocket
  | agentSocket
  | storage
  | importName
  deriving DecidableEq, Repr

/-- A flag that takes none. -/
inductive Switch
  | list
  | help
  | version
  deriving DecidableEq, Repr

/-- What is given. -/
structure Flags where
  config : Option Path := none
  vaultSocket : Option Path := none
  agentSocket : Option Path := none
  storage : Option Path := none
  importName : Option String := none
  list : Bool := false
  deriving DecidableEq, Repr

/-- Why the arguments give no flags. -/
inductive Stop
  /-- A flag is given twice, or together with one that excludes it. -/
  | conflict
  /-- A value is missing, or is no path. -/
  | invalidValue
  | unknownArgument
  /-- A value is attached to a flag that takes none. -/
  | surplusValue
  | help
  | version
  deriving DecidableEq, Repr

/-- Help and the version are what was asked for; all else is a fault. -/
def Stop.exitCode : Stop → Nat
  | help | version => 0
  | _ => 2

abbrev Environment := String → Option String

/-! ## Flags -/

/-- A path that is given for the first time. -/
def newPath (old : Option Path) (value : String) : Except Stop (Option Path) :=
  if old.isSome then .error .conflict
  else if value = "" then .error .invalidValue
  else .ok (some ⟨value⟩)

/-- Gives a flag its value. -/
def Flags.give (f : Flags) (value : String) : ValueFlag → Except Stop Flags
  | .config => do return { f with config := ← newPath f.config value }
  | .vaultSocket => do return { f with vaultSocket := ← newPath f.vaultSocket value }
  | .agentSocket => do return { f with agentSocket := ← newPath f.agentSocket value }
  | .storage => do return { f with storage := ← newPath f.storage value }
  | .importName =>
    if f.importName.isSome then .error .conflict else .ok { f with importName := some value }

/-- Sets a flag that takes no value. -/
def Flags.turnOn (f : Flags) : Switch → Except Stop Flags
  | .list => if f.list then .error .conflict else .ok { f with list := true }
  | .help => .error .help
  | .version => .error .version

/-- The flag with a long name. -/
def long? : String → Option (ValueFlag ⊕ Switch)
  | "config" => some (.inl .config)
  | "vault-socket" => some (.inl .vaultSocket)
  | "agent-socket" => some (.inl .agentSocket)
  | "storage" => some (.inl .storage)
  | "import" => some (.inl .importName)
  | "list" => some (.inr .list)
  | "help" => some (.inr .help)
  | "version" => some (.inr .version)
  | _ => none

/-- The flag with a short name. -/
def short? : Char → Option (ValueFlag ⊕ Switch)
  | 'c' => some (.inl .config)
  | 'h' => some (.inr .help)
  | 'V' => some (.inr .version)
  | _ => none

/-! ## Arguments -/

/-- What has been read: the flags that count, and a flag that waits, with its value once it has
one. -/
structure Progress where
  flags : Flags := {}
  waiting : Option (ValueFlag × Option String) := none

/-- Makes the waiting flag count. -/
def Progress.settle (p : Progress) : Except Stop Flags :=
  match p.waiting with
  | none => .ok p.flags
  | some (_, none) => .error .invalidValue
  | some (flag, some value) => p.flags.give value flag

/-- Reads a flag that takes a value. -/
def Progress.valueFlag (p : Progress) (flag : ValueFlag) (attached : Option String) :
    Except Stop Progress := do
  let flags ← p.settle
  match attached with
  | some value => return { flags := ← flags.give value flag }
  | none => return { flags, waiting := some (flag, none) }

/-- Reads a flag that takes none. -/
def Progress.switch (p : Progress) (s : Switch) : Except Stop Progress := do
  return { flags := ← (← p.settle).turnOn s }

/-- Reads an argument that begins with two dashes, of which `text` is the rest. -/
def Progress.long (p : Progress) (text : List Char) : Except Stop Progress :=
  let attached := match text.dropWhile (· ≠ '=') with
    | _ :: value => some (String.ofList value)
    | [] => none
  match long? (String.ofList (text.takeWhile (· ≠ '='))), attached with
  | some (.inl flag), _ => p.valueFlag flag attached
  | some (.inr s), none => p.switch s
  | some (.inr _), some _ => .error .surplusValue
  | none, _ => .error .unknownArgument

/-- Reads short flags that stand together. A value may follow in the same argument, also behind an
equals sign. -/
def Progress.shorts (p : Progress) : List Char → Except Stop Progress
  | [] => .ok p
  | c :: rest =>
    match short? c with
    | none => .error .unknownArgument
    | some (.inr s) => do (← p.switch s).shorts rest
    | some (.inl flag) =>
      p.valueFlag flag <| match rest with
        | [] => none
        | '=' :: value => some (String.ofList value)
        | value => some (String.ofList value)

/-- Reads an argument that is no flag. -/
def Progress.plain (p : Progress) (text : String) : Except Stop Progress :=
  match p.waiting with
  | some (flag, none) => .ok { p with waiting := some (flag, some text) }
  | _ => .error .unknownArgument

/-- Reads arguments. Nothing may follow two dashes that stand alone. -/
def Progress.read (p : Progress) : List String → Except Stop Flags
  | [] => p.settle
  | arg :: rest =>
    match arg.toList with
    | ['-', '-'] => if rest = [] then p.settle else .error .unknownArgument
    | '-' :: '-' :: text => do (← p.long text).read rest
    | '-' :: c :: text => do (← p.shorts (c :: text)).read rest
    | _ => do (← p.plain arg).read rest

/-! ## The environment -/

/-- The path that is given, or else the one in the environment, which may not be empty. -/
def orElsewhere (given : Option Path) (elsewhere : Option String) : Except Stop (Option Path) :=
  match given, elsewhere with
  | none, some value => newPath none value
  | _, _ => .ok given

/-- Takes what is not given from the environment. -/
def Flags.complete (env : Environment) (f : Flags) : Except Stop Flags := do
  return { f with
    vaultSocket := ← orElsewhere f.vaultSocket (env "KEYWARD_VAULT_SOCKET")
    agentSocket := ← orElsewhere f.agentSocket (env "KEYWARD_AGENT_SOCKET")
    storage := ← orElsewhere f.storage (env "KEYWARD_STORAGE") }

/-- The flags in arguments and the environment. Import and list exclude each other. -/
def flags (env : Environment) (args : List String) : Except Stop Flags := do
  let f ← Progress.read {} args
  let f ← f.complete env
  if f.importName.isSome && f.list then .error .conflict else .ok f

/-- Puts what is given in place of what the configuration says. The storage may be in the home
directory. -/
def Flags.apply (f : Flags) (home : Option String) (config : Config) : Config where
  agent :=
    { socket := f.agentSocket.getD config.agent.socket
      storage := (f.storage.getD config.agent.storage).expandHome home }
  vault := { config.vault with socket := f.vaultSocket.getD config.vault.socket }

end VaultAgent.CommandLine
