import Maat.Prove.Precheck

/-!
# The prover's command

`main` of `zk/script/src/bin/prove.rs` around the check and the guest: the arguments, the
corruptions of its negative tests, the exit codes, and the files it leaves for the orchestrator.
The SP1 SDK and the file system answer; a run may be cut off while it waits for any answer.
-/

namespace Maat.Prove

open Rlp Bytes Json Js
open Guest (ProofInput ProofOutput)

/-! ## The output as JSON -/

/-- What `proof_<intentId>.json` holds. -/
structure ProofOutputJson where
  txHash : Str
  mode : Str
  vkey : Str
  blockHash : Str
  blockNumber : UInt64
  blockTimestamp : UInt64
  contract : Str
  intentId : Str
  sender : Str
  amount : Str
  tokenAddress : Str
  destinationWallet : Str
  destinationChainId : UInt64
  expiry : UInt64
  slippageBps : UInt16
  deriving DecidableEq

/-- `format!("0x{}", hex::encode(bytes))` -/
def hex0x (bs : List UInt8) : Str := '0' :: 'x' :: Hex.toHex bs

def ProofOutputJson.fromOutput (o : ProofOutput) (txHash mode vkey : Str) : ProofOutputJson where
  txHash := txHash
  mode := mode
  vkey := vkey
  blockHash := hex0x o.blockHash.val
  blockNumber := o.blockNumber
  blockTimestamp := o.blockTimestamp
  contract := hex0x o.contract.val
  intentId := hex0x o.intentId.val
  sender := hex0x o.sender.val
  amount := hex0x o.amount.val
  tokenAddress := hex0x o.tokenAddress.val
  destinationWallet := hex0x o.destinationWallet.val
  destinationChainId := o.destinationChainId
  expiry := o.expiry
  slippageBps := o.slippageBps

def ProofOutputJson.toValue (json : ProofOutputJson) : Value :=
  .object [("tx_hash".toList, .string json.txHash), ("mode".toList, .string json.mode),
    ("vkey".toList, .string json.vkey), ("block_hash".toList, .string json.blockHash),
    ("block_number".toList, .number (decimal json.blockNumber.toNat)),
    ("block_timestamp".toList, .number (decimal json.blockTimestamp.toNat)),
    ("contract".toList, .string json.contract), ("intent_id".toList, .string json.intentId),
    ("sender".toList, .string json.sender), ("amount".toList, .string json.amount),
    ("token_address".toList, .string json.tokenAddress),
    ("destination_wallet".toList, .string json.destinationWallet),
    ("destination_chain_id".toList, .number (decimal json.destinationChainId.toNat)),
    ("expiry".toList, .number (decimal json.expiry.toNat)),
    ("slippage_bps".toList, .number (decimal json.slippageBps.toNat))]

/-! ## Files -/

/-- The SP1 SDK: what a proof commits, and whether it verifies under the key of a program. -/
structure Sdk where
  Proof : Type
  publicValues : Proof → ProofOutput
  verify : Str → Proof → Bool

inductive File (S : Sdk) where
  | text (t : Str)
  | proof (p : S.Proof)

/-- The working directory. -/
abbrev Disk (S : Sdk) := Str → Option (File S)

def binPath (idHex : Str) : Str := "proof_".toList ++ idHex ++ ".bin".toList

/-- A proof is behind `proof_<id>.json` only. -/
def jsonPath (mode idHex : Str) : Str :=
  (if mode = "prove".toList then "proof_".toList else "exec_".toList) ++ idHex ++ ".json".toList

def tmp (path : Str) : Str := path ++ ".tmp".toList

def intentIdHex (output : ProofOutput) : Str := Hex.toHex output.intentId.val

section disk

variable {S : Sdk}

def Disk.write (disk : Disk S) (path : Str) (file : File S) : Disk S :=
  Function.update disk path (some file)

def Disk.rename (disk : Disk S) (source target : Str) : Disk S :=
  Function.update (Function.update disk target (disk source)) source none

end disk

/-! ## Negative tests -/

def OTHER_REAL_CONTRACT : Str := "0xcA6bf2D574209D49515a9Eeb61E27924edE28860".toList

/-- `bytes[i] ^= 0xff`; none where the index is out of range. -/
def flipByte (bytes : List UInt8) (i : Nat) : Option (List UInt8) :=
  if i < bytes.length then some (bytes.modify i (· ^^^ 0xff)) else none

/-- How the process ends early. -/
def PANIC : Nat := 101

/-- A node list with its last node corrupted at the index that `at_` chooses. -/
def flipLast (nodes : List (List UInt8)) (at_ : Nat → Option Nat) :
    Except Nat (List (List UInt8)) :=
  match nodes.getLast? with
  | none => .error 1
  | some last =>
    match (at_ last.length).bind (flipByte last) with
    | none => .error PANIC
    | some last' => .ok (nodes.dropLast ++ [last'])

/-- One corruption of an input that is otherwise real. `dataOffset` is where `rlp` finds the data of
an item of a list. An error is the exit code. -/
def applyTamper (L : Libraries) (dataOffset : List UInt8 → Nat → Option Nat) (input : ProofInput)
    (kind : Str) : Except Nat ProofInput :=
  if kind = "amount".toList then
    (flipLast input.receiptProofNodes fun n => some (n / 2)).map fun nodes =>
      { input with receiptProofNodes := nodes }
  else if kind = "contract".toList then
    .ok { input with expectedContract :=
      ⟨input.expectedContract.val.modify 0 (· ^^^ 0xff), by
        rw [List.length_modify, input.expectedContract.property]⟩ }
  else if kind = "different-contract".toList then
    match h2b20 L OTHER_REAL_CONTRACT with
    | .error _ => .error 1
    | .ok expectedContract => .ok { input with expectedContract }
  else if kind = "header".toList then
    match dataOffset input.headerRlp 5 with
    | none => .error 1
    | some offset =>
      match flipByte input.headerRlp offset with
      | none => .error PANIC
      | some headerRlp => .ok { input with headerRlp }
  else if kind = "receipt".toList then
    -- `last[n - 3]`, where the subtraction may underflow
    (flipLast input.receiptProofNodes fun n => if 3 ≤ n then some (n - 3) else none).map
      fun nodes => { input with receiptProofNodes := nodes }
  else .error 1

/-! ## The command -/

/-- The environment, and the verification key of the program that the binary carries. -/
structure Config where
  alchemyRpcUrls : List (Option Str)
  arbitrumIntentManagerAddress : Option Str
  vkey : Str

def rpcUrls (config : Config) : Except Str (List Str) :=
  let urls := (config.alchemyRpcUrls.filterMap id).filter (· ≠ [])
  if urls = [] then .error "no ALCHEMY_RPC_URL_1/2/3 set in .env".toList else .ok urls

def intentManagerAddress (config : Config) : Except Str Str :=
  match config.arbitrumIntentManagerAddress with
  | none => .error
    "ARBITRUM_INTENT_MANAGER_ADDRESS is not set — refusing to guess a contract address".toList
  | some [] => .error "ARBITRUM_INTENT_MANAGER_ADDRESS is set but empty".toList
  | some address => .ok address

/-- The arguments after the name of the command. -/
structure Args where
  mode : Str
  txHash : Str
  tamper : Option Str
  deriving DecidableEq

/-- `s.trim_start_matches("--tamper=")`, by the fuel that is left. -/
def trimTamper : Nat → Str → Str
  | 0, s => s
  | n + 1, s =>
    if "--tamper=".toList <+: s then trimTamper n (s.drop "--tamper=".length) else s

def parseArgs (args : List Str) : Option Args :=
  args[1]?.map fun txHash =>
    { mode := args[0]?.getD "execute".toList
      txHash
      tamper := (args.find? fun a => "--tamper=".toList.isPrefixOf a).map fun a =>
        trimTamper a.length a }

/-- `CheckError::exit_code` -/
def CheckError.exitCode : CheckError → Nat
  | .infra _ => 1
  | .semantic _ => 2

/-- What the command waits for. -/
inductive Point (S : Sdk) where
  /-- `native_precheck` -/
  | checking
  /-- `client.setup` -/
  | settingUp (input : ProofInput)
  /-- `client.execute` -/
  | executing (input : ProofInput)
  /-- `client.prove` -/
  | proving (input : ProofInput)
  /-- `proof.save(&bin_tmp)` -/
  | savingProof (proof : S.Proof)
  | renamingProof (proof : S.Proof)
  /-- `write_json_output` -/
  | writingJson (output : ProofOutput) (mode : Str)
  | renamingJson (output : ProofOutput) (mode : Str)

inductive Reply (S : Sdk) where
  | checked (result : Except CheckError ProofInput)
  | isSetUp (ok : Bool)
  /-- the committed output; none where the guest panics or the executor fails -/
  | executed (output : Option ProofOutput)
  | proved (proof : Option S.Proof)
  | written (ok : Bool)

inductive Next (S : Sdk) where
  | await (point : Point S)
  | exit (code : Nat)

def begin_ (S : Sdk) (config : Config) (args : List Str) : Next S :=
  match parseArgs args, rpcUrls config, intentManagerAddress config with
  | some _, .ok _, .ok _ => .await .checking
  | _, _, _ => .exit 1

section command

variable {S : Sdk} (L : Libraries) (dataOffset : List UInt8 → Nat → Option Nat) (vkey : Str)
  (args : Args)

/-- The text of the file, with its members on lines of their own. -/
def jsonText (output : ProofOutput) (mode : Str) : Str :=
  stringify (ProofOutputJson.fromOutput output args.txHash mode vkey).toValue

/-- From one answer to the next question. -/
def resume (disk : Disk S) : Point S → Reply S → Option (Disk S × Next S)
  | .checking, .checked (.error e) => some (disk, .exit e.exitCode)
  | .checking, .checked (.ok input) =>
    match args.tamper with
    | none => some (disk, .await (.settingUp input))
    | some kind =>
      match applyTamper L dataOffset input kind with
      | .error code => some (disk, .exit code)
      | .ok input => some (disk, .await (.settingUp input))
  | .settingUp _, .isSetUp false => some (disk, .exit 1)
  | .settingUp input, .isSetUp true =>
    some (disk, .await (if args.mode = "execute".toList then .executing input else .proving input))
  | .executing _, .executed none => some (disk, .exit (if args.tamper.isSome then 0 else 2))
  | .executing _, .executed (some output) =>
    if args.tamper.isSome then some (disk, .exit 3)
    else some (disk, .await (.writingJson output "execute".toList))
  | .proving _, .proved none => some (disk, .exit 1)
  | .proving _, .proved (some proof) =>
    if S.verify vkey proof then some (disk, .await (.savingProof proof))
    else some (disk, .exit 4)
  | .savingProof _, .written false => some (disk, .exit 1)
  | .savingProof proof, .written true =>
    some (disk.write (tmp (binPath (intentIdHex (S.publicValues proof)))) (.proof proof),
      .await (.renamingProof proof))
  | .renamingProof _, .written false => some (disk, .exit 1)
  | .renamingProof proof, .written true =>
    let path := binPath (intentIdHex (S.publicValues proof))
    some (disk.rename (tmp path) path,
      .await (.writingJson (S.publicValues proof) "prove".toList))
  -- a JSON that cannot be written is a warning
  | .writingJson _ _, .written false => some (disk, .exit 0)
  | .writingJson output mode, .written true =>
    some (disk.write (tmp (jsonPath mode (intentIdHex output)))
        (.text (jsonText vkey args output mode)),
      .await (.renamingJson output mode))
  | .renamingJson _ _, .written false => some (disk, .exit 0)
  | .renamingJson output mode, .written true =>
    let path := jsonPath mode (intentIdHex output)
    some (disk.rename (tmp path) path, .exit 0)
  | _, _ => none

/-- A run of the command, answer by answer. -/
def step : Disk S × Next S → Reply S → Option (Disk S × Next S)
  | (disk, .await point), reply => resume L dataOffset vkey args disk point reply
  | (_, .exit _), _ => none

end command

end Maat.Prove
