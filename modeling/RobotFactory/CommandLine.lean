import RobotFactory.ConfiguredWorkers
import RobotFactory.Crc32
import RobotFactory.Startup

/-!
# The command lines

What `main` of the server and of the load balancer make of their arguments. Both are
given a number of servers and then that many groups of id, address and port, which they
read without a look at the number of arguments; only the server has a test for that at
its start. The value of a number that no `int` holds is not defined.
-/
namespace RobotFactory

/-- What ends `main`: `exit` after one of its two messages, the use of an argument that
is not there, or a number that no `int` holds. -/
inductive ArgFault where
  | wrongNumber
  | portRange
  | missingArgument
  | noInt
  deriving DecidableEq, Repr

section Numbers

def isSpace (c : Char) : Bool := c.toNat = 32 ∨ 9 ≤ c.toNat ∧ c.toNat ≤ 13

/-- The value of the digits that a string starts with. -/
def digitsValue (s : List Char) : ℕ := Nat.ofDigitChars 10 (s.takeWhile Char.isDigit) 0

def signedValue : List Char → ℤ
  | '-' :: s => -digitsValue s
  | '+' :: s => digitsValue s
  | s => digitsValue s

def atoi (arg : String) : Option ℤ :=
  let value := signedValue (arg.toList.dropWhile isSpace)
  if -2 ^ 31 ≤ value ∧ value < 2 ^ 31 then some value else none

theorem isDigit_of_mem (n : ℕ) (c : Char) (hc : c ∈ Nat.toDigits 10 n) : c.isDigit = true :=
  Nat.isDigit_of_mem_toDigits (by decide) (by decide) hc

theorem digitsValue_toDigits (n : ℕ) : digitsValue (Nat.toDigits 10 n) = n := by
  rw [digitsValue, List.takeWhile_eq_self_iff.mpr (isDigit_of_mem n),
    Nat.ofDigitChars_ten_toDigits]

theorem digit_ne {c : Char} (h : c.isDigit = true) : isSpace c = false ∧ c ≠ '-' ∧ c ≠ '+' := by
  have hdigit := Char.isDigit_iff_toNat.mp h
  have hlow : 48 ≤ c.toNat := hdigit.1
  refine ⟨?_, ?_, ?_⟩
  · simp only [isSpace, decide_eq_false_iff_not]
    omega
  · rintro rfl
    exact absurd hlow (by decide)
  · rintro rfl
    exact absurd hlow (by decide)

theorem signedValue_digits {s : List Char} (h : ∀ c ∈ s, c.isDigit = true) :
    signedValue (s.dropWhile isSpace) = digitsValue s := by
  cases s with
  | nil => rfl
  | cons c cs =>
    obtain ⟨hspace, hminus, hplus⟩ := digit_ne (h c List.mem_cons_self)
    rw [List.dropWhile_cons_of_neg (by rw [hspace]; decide)]
    unfold signedValue
    split
    · next heq => exact absurd (List.cons.inj heq).1 hminus
    · next heq => exact absurd (List.cons.inj heq).1 hplus
    · rfl

theorem signedValue_toString (z : ℤ) :
    signedValue ((toString z).toList.dropWhile isSpace) = z := by
  cases z with
  | ofNat n =>
    have hlist : (toString (Int.ofNat n)).toList = Nat.toDigits 10 n := Nat.toList_repr
    rw [hlist, signedValue_digits (isDigit_of_mem n), digitsValue_toDigits]
    rfl
  | negSucc n =>
    have hlist : (toString (Int.negSucc n)).toList = '-' :: Nat.toDigits 10 (n + 1) := by
      change ("-" ++ (n + 1).repr).toList = _
      rw [String.toList_append, Nat.toList_repr]
      rfl
    have hspace : isSpace '-' = false := by decide
    rw [hlist, List.dropWhile_cons_of_neg (by rw [hspace]; decide), signedValue,
      digitsValue_toDigits]
    rfl

theorem atoi_toString {z : ℤ} (h : -2 ^ 31 ≤ z ∧ z < 2 ^ 31) : atoi (toString z) = some z := by
  simp only [atoi, signedValue_toString]
  exact if_pos h

end Numbers

def argAt (argv : List String) (i : ℕ) : Except ArgFault String :=
  match argv[i]? with
  | some arg => .ok arg
  | none => .error .missingArgument

def intAt (argv : List String) (i : ℕ) : Except ArgFault ℤ := do
  let arg ← argAt argv i
  match atoi arg with
  | some value => return value
  | none => throw .noInt

/-- The id, the address and the port that are given from the argument `j` on. -/
def readServer (argv : List String) (j : ℕ) : Except ArgFault (ℤ × String × ℤ) := do
  let id ← intAt argv j
  let ip ← argAt argv (j + 1)
  let port ← intAt argv (j + 2)
  return (id, ip, port)

/-- The loop over `n` servers. -/
def readServers (argv : List String) : ℕ → ℕ → Except ArgFault (List (ℤ × String × ℤ))
  | 0, _ => .ok []
  | n + 1, j => do
    let server ← readServer argv j
    let servers ← readServers argv n (j + 3)
    return server :: servers

/-- What `main` of the server starts it with; all sockets of the factories are -1. -/
structure ServerArgs where
  clientPortAddr : ℤ
  factoryPortAddr : ℤ
  factoryId : ℤ
  factories : List (ℤ × String × ℤ)
  deriving DecidableEq, Repr

def checkPort (port : ℤ) : Except ArgFault Unit :=
  if port < 1024 ∨ port > 65535 then .error .portRange else .ok ()

/-- `main` of the server, up to the constructor of `ServerSocket`. -/
def serverMain (argv : List String) : Except ArgFault ServerArgs :=
  if argv.length < 2 ∨ argv.length % 3 ≠ 2 then .error .wrongNumber
  else do
    let count ← intAt argv 3
    let factories ← readServers argv count.toNat 4
    let clientPortAddr ← intAt argv (argv.length - 1)
    checkPort clientPortAddr
    let factoryPortAddr ← intAt argv 1
    checkPort factoryPortAddr
    let factoryId ← intAt argv 2
    return ⟨clientPortAddr, factoryPortAddr, factoryId, factories⟩

/-- `main` of the load balancer: its port, and what its `RobotFactory` is made of. -/
def loadBalancerMain (argv : List String) :
    Except ArgFault (ℤ × Finmap fun _ : ℤ => String × ℤ) := do
  let port ← intAt argv 1
  let numWorkerNodes ← intAt argv 2
  let workers ← readServers argv numWorkerNodes.toNat 3
  return (port, workerNodeMap workers)

section Reading

variable {argv : List String}

theorem argAt_eq_ok_iff {i : ℕ} {arg : String} : argAt argv i = .ok arg ↔ argv[i]? = some arg := by
  unfold argAt
  split
  · next heq => simp [heq]
  · next heq => simp [heq]

theorem intAt_eq_ok_iff {i : ℕ} {z : ℤ} :
    intAt argv i = .ok z ↔ ∃ arg, argv[i]? = some arg ∧ atoi arg = some z := by
  unfold intAt
  rw [bind_eq_ok]
  refine exists_congr fun arg => and_congr argAt_eq_ok_iff ?_
  cases atoi arg with
  | none => simp [throw, throwThe, MonadExceptOf.throw]
  | some value => simp [pure, Except.pure]

/-- The arguments that say these servers. -/
inductive Spells : List String → List (ℤ × String × ℤ) → Prop where
  | nil : Spells [] []
  | cons {a ip q : String} {id port : ℤ} {words : List String} {servers : List (ℤ × String × ℤ)} :
      atoi a = some id → atoi q = some port → Spells words servers →
      Spells (a :: ip :: q :: words) ((id, ip, port) :: servers)

theorem Spells.length_eq {words : List String} {servers : List (ℤ × String × ℤ)}
    (h : Spells words servers) : words.length = 3 * servers.length := by
  induction h with
  | nil => rfl
  | cons _ _ _ ih =>
    simp only [List.length_cons]
    omega

theorem readServer_eq_ok_iff {j : ℕ} {id port : ℤ} {ip : String} :
    readServer argv j = .ok (id, ip, port) ↔ ∃ a q rest, argv.drop j = a :: ip :: q :: rest ∧
      atoi a = some id ∧ atoi q = some port := by
  constructor
  · intro h
    obtain ⟨id', hid, h⟩ := bind_eq_ok.mp h
    obtain ⟨ip', hip, h⟩ := bind_eq_ok.mp h
    obtain ⟨port', hport, h⟩ := bind_eq_ok.mp h
    cases h
    obtain ⟨a, ha, hid⟩ := intAt_eq_ok_iff.mp hid
    obtain ⟨q, hq, hport⟩ := intAt_eq_ok_iff.mp hport
    obtain ⟨hlt, rfl⟩ := List.getElem?_eq_some_iff.mp ha
    obtain ⟨hlt', rfl⟩ := List.getElem?_eq_some_iff.mp (argAt_eq_ok_iff.mp hip)
    obtain ⟨hlt'', rfl⟩ := List.getElem?_eq_some_iff.mp hq
    refine ⟨_, _, argv.drop (j + 3), ?_, hid, hport⟩
    rw [List.drop_eq_getElem_cons hlt, List.drop_eq_getElem_cons hlt',
      List.drop_eq_getElem_cons hlt'']
  · rintro ⟨a, q, rest, hdrop, hid, hport⟩
    have hat (k : ℕ) : argv[j + k]? = (a :: ip :: q :: rest)[k]? := by
      rw [← hdrop, List.getElem?_drop]
    have ha : intAt argv j = .ok id := intAt_eq_ok_iff.mpr ⟨a, hat 0, hid⟩
    have hip : argAt argv (j + 1) = .ok ip := argAt_eq_ok_iff.mpr (hat 1)
    have hq : intAt argv (j + 2) = .ok port := intAt_eq_ok_iff.mpr ⟨q, hat 2, hport⟩
    rw [readServer, ha, ok_bind, hip, ok_bind, hq]
    rfl

/-- The loop reads `n` groups of arguments, whatever is behind them. -/
theorem readServers_eq_ok_iff {n j : ℕ} {servers : List (ℤ × String × ℤ)} :
    readServers argv n j = .ok servers ↔
      servers.length = n ∧ ∃ words rest, argv.drop j = words ++ rest ∧ Spells words servers := by
  induction n generalizing j servers with
  | zero =>
    constructor
    · intro h
      cases h
      exact ⟨rfl, [], argv.drop j, rfl, .nil⟩
    · rintro ⟨hlen, -⟩
      rw [List.length_eq_zero_iff.mp hlen]
      rfl
  | succ n ih =>
    constructor
    · intro h
      obtain ⟨⟨id, ip, port⟩, hfirst, h⟩ := bind_eq_ok.mp h
      obtain ⟨others, hothers, h⟩ := bind_eq_ok.mp h
      cases h
      obtain ⟨a, q, rest, hdrop, hid, hport⟩ := readServer_eq_ok_iff.mp hfirst
      obtain ⟨hlen, words, rest', hdrop', hwords⟩ := ih.mp hothers
      refine ⟨by rw [List.length_cons, hlen], a :: ip :: q :: words, rest', ?_,
        .cons hid hport hwords⟩
      rw [← List.drop_drop, hdrop] at hdrop'
      rw [hdrop, List.cons_append, List.cons_append, List.cons_append, ← hdrop']
      rfl
    · rintro ⟨hlen, words, rest, hdrop, hwords⟩
      cases hwords with
      | nil => cases hlen
      | @cons a ip q id port words servers hid hport hwords =>
        have hfirst := readServer_eq_ok_iff.mpr ⟨a, q, words ++ rest, hdrop, hid, hport⟩
        have hothers := (ih (j := j + 3)).mpr ⟨Nat.succ.inj hlen, words, rest,
          by rw [← List.drop_drop, hdrop]; rfl, hwords⟩
        rw [readServers, hfirst, ok_bind, hothers]
        rfl

end Reading

/-- The ports that `main` of the server takes. -/
def ValidPort (port : ℤ) : Prop := 1024 ≤ port ∧ port ≤ 65535

instance (port : ℤ) : Decidable (ValidPort port) :=
  inferInstanceAs (Decidable (1024 ≤ port ∧ port ≤ 65535))

theorem checkPort_eq_ok_iff {port : ℤ} {u : Unit} : checkPort port = .ok u ↔ ValidPort port := by
  unfold checkPort ValidPort
  split_ifs with h
  · simp
    omega
  · simp
    omega

/-- The command lines that say these arguments. Behind the groups that are counted there
may be others, which are not read. -/
inductive ServerLine (args : ServerArgs) : List String → Prop where
  | mk {prog port id count client : String} {words more : List String} {n : ℤ}
      (hcount : atoi count = some n) (hlen : args.factories.length = n.toNat)
      (hwords : Spells words args.factories) (hmore : 3 ∣ more.length)
      (hport : atoi port = some args.factoryPortAddr) (hvalid : ValidPort args.factoryPortAddr)
      (hid : atoi id = some args.factoryId) (hclient : atoi client = some args.clientPortAddr)
      (hvalid' : ValidPort args.clientPortAddr) :
      ServerLine args (prog :: port :: id :: count :: (words ++ (more ++ [client])))

theorem getElem?_client (front : List String) (client : String) :
    (front ++ [client])[(front ++ [client]).length - 1]? = some client := by
  rw [← List.getLast?_eq_getElem?, List.getLast?_concat]

theorem ServerLine.of_serverMain {argv : List String} {args : ServerArgs}
    (h : serverMain argv = .ok args) : ServerLine args argv := by
  unfold serverMain at h
  split_ifs at h with hargc
  obtain ⟨n, hreadCount, h⟩ := bind_eq_ok.mp h
  obtain ⟨factories, hfactories, h⟩ := bind_eq_ok.mp h
  obtain ⟨clientPortAddr, hreadClient, h⟩ := bind_eq_ok.mp h
  obtain ⟨_, hvalid', h⟩ := bind_eq_ok.mp h
  obtain ⟨factoryPortAddr, hreadPort, h⟩ := bind_eq_ok.mp h
  obtain ⟨_, hvalid, h⟩ := bind_eq_ok.mp h
  obtain ⟨factoryId, hreadId, h⟩ := bind_eq_ok.mp h
  cases h
  obtain ⟨count, hat, hcount⟩ := intAt_eq_ok_iff.mp hreadCount
  obtain ⟨portArg, hportAt, hport⟩ := intAt_eq_ok_iff.mp hreadPort
  obtain ⟨idArg, hidAt, hid⟩ := intAt_eq_ok_iff.mp hreadId
  obtain ⟨client, hclientAt, hclient⟩ := intAt_eq_ok_iff.mp hreadClient
  obtain ⟨hlen, words, rest, hdrop, hwords⟩ := readServers_eq_ok_iff.mp hfactories
  obtain ⟨hlt, -⟩ := List.getElem?_eq_some_iff.mp hat
  match argv, hlt with
  | prog :: port' :: id' :: count' :: tail, _ =>
    cases hat
    cases hportAt
    cases hidAt
    have htail : tail = words ++ rest := hdrop
    subst htail
    have hsize := hwords.length_eq
    simp only [List.length_cons, List.length_append] at hargc
    rcases List.eq_nil_or_concat rest with rfl | ⟨more, last, rfl⟩
    · rw [List.length_nil] at hargc
      omega
    · rw [List.length_concat] at hargc
      have hlast := getElem?_client (prog :: portArg :: idArg :: count :: (words ++ more)) last
      rw [List.concat_eq_append] at hclientAt ⊢
      simp only [List.cons_append, List.append_assoc] at hlast
      rw [hlast, Option.some.injEq] at hclientAt
      subst hclientAt
      exact .mk hcount hlen hwords (by omega) hport (checkPort_eq_ok_iff.mp hvalid) hid hclient
        (checkPort_eq_ok_iff.mp hvalid')

theorem ServerLine.serverMain_eq {argv : List String} {args : ServerArgs}
    (h : ServerLine args argv) : serverMain argv = .ok args := by
  obtain @⟨prog, port, id, count, client, words, more, n, hcount, hlen, hwords, hmore, hport,
    hvalid, hid, hclient, hvalid'⟩ := h
  have hsize := hwords.length_eq
  have hlast := getElem?_client (prog :: port :: id :: count :: (words ++ more)) client
  simp only [List.cons_append, List.append_assoc] at hlast
  generalize hargv : prog :: port :: id :: count :: (words ++ (more ++ [client])) = argv at *
  have hargc : ¬(argv.length < 2 ∨ argv.length % 3 ≠ 2) := by
    simp only [← hargv, List.length_cons, List.length_append, List.length_nil]
    omega
  have hn : intAt argv 3 = .ok n := intAt_eq_ok_iff.mpr ⟨count, by rw [← hargv]; rfl, hcount⟩
  have hfactories : readServers argv n.toNat 4 = .ok args.factories :=
    readServers_eq_ok_iff.mpr ⟨hlen, words, more ++ [client], by rw [← hargv]; rfl, hwords⟩
  have hclient' : intAt argv (argv.length - 1) = .ok args.clientPortAddr :=
    intAt_eq_ok_iff.mpr ⟨client, hlast, hclient⟩
  have hport' : intAt argv 1 = .ok args.factoryPortAddr :=
    intAt_eq_ok_iff.mpr ⟨port, by rw [← hargv]; rfl, hport⟩
  have hid' : intAt argv 2 = .ok args.factoryId :=
    intAt_eq_ok_iff.mpr ⟨id, by rw [← hargv]; rfl, hid⟩
  have hcheck : checkPort args.clientPortAddr = .ok () := checkPort_eq_ok_iff.mpr hvalid'
  have hcheck' : checkPort args.factoryPortAddr = .ok () := checkPort_eq_ok_iff.mpr hvalid
  rw [serverMain, if_neg hargc, hn, ok_bind, hfactories, ok_bind, hclient', ok_bind, hcheck,
    ok_bind, hport', ok_bind, hcheck', ok_bind, hid']
  rfl

/-- `main` of the server accepts these command lines and no other, and takes from them
what they say. -/
theorem serverMain_eq_ok_iff {argv : List String} {args : ServerArgs} :
    serverMain argv = .ok args ↔ ServerLine args argv :=
  ⟨.of_serverMain, ServerLine.serverMain_eq⟩

example : serverMain ["server", "5001", "0", "1", "1", "10.0.0.2", "5002", "8001"] =
    .ok ⟨8001, 5001, 0, [(1, "10.0.0.2", 5002)]⟩ := by decide +kernel

section Missing

variable {argv : List String}

theorem error_bind {ε α β : Type} (e : ε) (f : α → Except ε β) : (.error e >>= f) = .error e := rfl

theorem argAt_missing {i : ℕ} (h : argv.length ≤ i) : argAt argv i = .error .missingArgument := by
  rw [argAt, List.getElem?_eq_none h]

theorem intAt_missing {i : ℕ} (h : argv.length ≤ i) : intAt argv i = .error .missingArgument := by
  rw [intAt, argAt_missing h, error_bind]

theorem argAt_of_lt {i : ℕ} (h : i < argv.length) : ∃ arg, argAt argv i = .ok arg :=
  ⟨argv[i], argAt_eq_ok_iff.mpr (List.getElem?_eq_getElem h)⟩

/-- Each argument starts with a number that an `int` holds, or with none at all. -/
def Ints (argv : List String) : Prop := ∀ arg ∈ argv, (atoi arg).isSome = true

instance (argv : List String) : Decidable (Ints argv) :=
  inferInstanceAs (Decidable (∀ arg ∈ argv, (atoi arg).isSome = true))

theorem intAt_of_lt (hints : Ints argv) {i : ℕ} (h : i < argv.length) :
    ∃ z, intAt argv i = .ok z := by
  obtain ⟨z, hz⟩ := Option.isSome_iff_exists.mp (hints _ (List.getElem_mem h))
  exact ⟨z, intAt_eq_ok_iff.mpr ⟨argv[i], List.getElem?_eq_getElem h, hz⟩⟩

theorem readServer_of_ints (hints : Ints argv) (j : ℕ) :
    if j + 3 ≤ argv.length then ∃ server, readServer argv j = .ok server
    else readServer argv j = .error .missingArgument := by
  split_ifs with hle
  · obtain ⟨id, hid⟩ := intAt_of_lt hints (i := j) (by omega)
    obtain ⟨ip, hip⟩ := argAt_of_lt (show j + 1 < argv.length by omega)
    obtain ⟨port, hport⟩ := intAt_of_lt hints (i := j + 2) (by omega)
    refine ⟨(id, ip, port), ?_⟩
    rw [readServer, hid, ok_bind, hip, ok_bind, hport]
    rfl
  · unfold readServer
    by_cases h0 : j < argv.length
    · obtain ⟨id, hid⟩ := intAt_of_lt hints h0
      rw [hid, ok_bind]
      by_cases h1 : j + 1 < argv.length
      · obtain ⟨ip, hip⟩ := argAt_of_lt h1
        rw [hip, ok_bind, intAt_missing (by omega), error_bind]
      · rw [argAt_missing (by omega), error_bind]
    · rw [intAt_missing (by omega), error_bind]

/-- The loop gets past the last argument if and only if there are too few for it. -/
theorem readServers_of_ints (hints : Ints argv) (n j : ℕ) (hj : j ≤ argv.length) :
    if j + 3 * n ≤ argv.length then ∃ servers, readServers argv n j = .ok servers
    else readServers argv n j = .error .missingArgument := by
  induction n generalizing j with
  | zero =>
    rw [if_pos (by omega)]
    exact ⟨[], rfl⟩
  | succ n ih =>
    have hfirst := readServer_of_ints hints j
    rw [readServers]
    by_cases hle : j + 3 ≤ argv.length
    · rw [if_pos hle] at hfirst
      obtain ⟨server, hserver⟩ := hfirst
      have hmore := ih (j + 3) hle
      rw [hserver, ok_bind]
      split_ifs at hmore ⊢ with h h'
      · obtain ⟨servers, hservers⟩ := hmore
        exact ⟨server :: servers, by rw [hservers]; rfl⟩
      · omega
      · omega
      · rw [hmore, error_bind]
    · rw [if_neg hle] at hfirst
      rw [if_neg (by omega), hfirst, error_bind]

theorem checkPort_ne_missing (port : ℤ) : checkPort port ≠ .error .missingArgument := by
  unfold checkPort
  split_ifs <;> simp

/-- What is behind the loop reads arguments that are there. -/
theorem serverMain_behind (hints : Ints argv) (hlen : 5 ≤ argv.length) {n : ℤ}
    (hn : intAt argv 3 = .ok n) (hmod : argv.length % 3 = 2)
    {factories : List (ℤ × String × ℤ)}
    (hfactories : readServers argv n.toNat 4 = .ok factories) :
    serverMain argv ≠ .error .missingArgument := by
  obtain ⟨clientPortAddr, hclient⟩ := intAt_of_lt hints (i := argv.length - 1) (by omega)
  obtain ⟨factoryPortAddr, hport⟩ := intAt_of_lt hints (i := 1) (by omega)
  obtain ⟨factoryId, hid⟩ := intAt_of_lt hints (i := 2) (by omega)
  rw [serverMain, if_neg (by omega), hn, ok_bind, hfactories, ok_bind, hclient, ok_bind]
  cases hcheck : checkPort clientPortAddr with
  | error fault =>
    rintro heq
    cases heq
    exact checkPort_ne_missing _ hcheck
  | ok =>
    rw [ok_bind, hport, ok_bind]
    cases hcheck' : checkPort factoryPortAddr with
    | error fault =>
      rintro heq
      cases heq
      exact checkPort_ne_missing _ hcheck'
    | ok =>
      rw [ok_bind, hid]
      exact fun heq => by cases heq

/-- `main` of the server uses an argument that is not there if and only if there is only
one, or fewer groups of three than it is told to read. -/
theorem serverMain_missing_iff {argv : List String} (hints : Ints argv) :
    serverMain argv = .error .missingArgument ↔ argv.length % 3 = 2 ∧
      (argv.length = 2 ∨ ∃ n, intAt argv 3 = .ok n ∧ argv.length < 3 * n.toNat + 5) := by
  constructor
  · intro h
    have hargc : ¬(argv.length < 2 ∨ argv.length % 3 ≠ 2) := by
      intro hbad
      rw [serverMain, if_pos hbad] at h
      cases h
    refine ⟨by omega, or_iff_not_imp_left.mpr fun hne => ?_⟩
    obtain ⟨n, hn⟩ := intAt_of_lt hints (i := 3) (by omega)
    refine ⟨n, hn, ?_⟩
    by_contra hle
    have hloop := readServers_of_ints hints n.toNat 4 (by omega)
    rw [if_pos (by omega)] at hloop
    obtain ⟨factories, hfactories⟩ := hloop
    exact serverMain_behind hints (by omega) hn (by omega) hfactories h
  · rintro ⟨hmod, htwo | ⟨n, hn, hlt⟩⟩
    · rw [serverMain, if_neg (by omega), intAt_missing (by omega), error_bind]
    · by_cases hfew : argv.length ≤ 3
      · rw [intAt_missing hfew] at hn
        cases hn
      · have hloop := readServers_of_ints hints n.toNat 4 (by omega)
        rw [if_neg (by omega)] at hloop
        rw [serverMain, if_neg (by omega), hn, ok_bind, hloop, error_bind]

/-- A peer is announced and not given. -/
theorem serverMain_missing_one :
    serverMain ["server", "5001", "0", "1", "8001"] = .error .missingArgument :=
  (serverMain_missing_iff (by decide +kernel)).mpr
    ⟨rfl, .inr ⟨1, by decide +kernel, by decide⟩⟩

end Missing

/-- A server of a deployment, with its ports for the other servers and for clients. -/
structure Site where
  id : ℤ
  ip : String
  factoryPort : ℤ
  clientPort : ℤ
  deriving DecidableEq, Repr

def Site.server (port : Site → ℤ) (s : Site) : ℤ × String × ℤ := (s.id, s.ip, port s)

def siteWords (port : Site → ℤ) (sites : List Site) : List String :=
  sites.flatMap fun s => [toString s.id, s.ip, toString (port s)]

def Site.others (sites : List Site) (s : Site) : List Site := sites.filter fun o => o.id ≠ s.id

def serverLine (sites : List Site) (s : Site) : List String :=
  "server" :: toString s.factoryPort :: toString s.id :: toString ((s.others sites).length : ℤ) ::
    (siteWords Site.factoryPort (s.others sites) ++ [toString s.clientPort])

def loadBalancerLine (port : ℤ) (sites : List Site) : List String :=
  "loadbalancer" :: toString port :: toString (sites.length : ℤ) ::
    siteWords Site.clientPort sites

/-- Servers that can be told apart, with numbers that `main` takes. -/
structure Deployable (sites : List Site) : Prop where
  distinct : (sites.map Site.id).Nodup
  ids : ∀ s ∈ sites, -2 ^ 31 ≤ s.id ∧ s.id < 2 ^ 31
  factoryPorts : ∀ s ∈ sites, ValidPort s.factoryPort
  clientPorts : ∀ s ∈ sites, ValidPort s.clientPort
  few : sites.length < 2 ^ 31

/-- The records that `main` makes of the other servers. -/
def ServerArgs.factoriesRecord (args : ServerArgs) : List FactoryRec :=
  args.factories.map fun x => ⟨x.1, -1⟩

section Deployments

variable {sites : List Site}

theorem atoi_port {port : ℤ} (h : ValidPort port) : atoi (toString port) = some port := by
  obtain ⟨hlow, hhigh⟩ := h
  exact atoi_toString ⟨by omega, by omega⟩

theorem atoi_length {sites' : List Site} (h : Deployable sites)
    (hsub : sites'.length ≤ sites.length) :
    atoi (toString (sites'.length : ℤ)) = some (sites'.length : ℤ) := by
  have hfew := h.few
  exact atoi_toString ⟨by omega, by omega⟩

theorem spells_siteWords {port : Site → ℤ}
    (hids : ∀ s ∈ sites, -2 ^ 31 ≤ s.id ∧ s.id < 2 ^ 31)
    (hports : ∀ s ∈ sites, ValidPort (port s)) :
    Spells (siteWords port sites) (sites.map (Site.server port)) := by
  induction sites with
  | nil => exact .nil
  | cons s sites ih =>
    rw [List.forall_mem_cons] at hids hports
    exact .cons (atoi_toString hids.1) (atoi_port hports.1) (ih hids.2 hports.2)

/-- `main` of a server takes its command line, and knows all other servers. -/
theorem Deployable.serverMain_eq (h : Deployable sites) {s : Site} (hs : s ∈ sites) :
    serverMain (serverLine sites s) = .ok ⟨s.clientPort, s.factoryPort, s.id,
      (s.others sites).map (Site.server Site.factoryPort)⟩ := by
  have hsub : ∀ o ∈ s.others sites, o ∈ sites := fun o ho => List.mem_of_mem_filter ho
  have hline : ServerLine ⟨s.clientPort, s.factoryPort, s.id,
      (s.others sites).map (Site.server Site.factoryPort)⟩ ("server" :: toString s.factoryPort ::
        toString s.id :: toString ((s.others sites).length : ℤ) ::
        (siteWords Site.factoryPort (s.others sites) ++ ([] ++ [toString s.clientPort]))) :=
    .mk (atoi_length h (List.length_filter_le _ _)) (by simp)
      (spells_siteWords (fun o ho => h.ids o (hsub o ho)) fun o ho => h.factoryPorts o (hsub o ho))
      (dvd_zero 3) (atoi_port (h.factoryPorts s hs)) (h.factoryPorts s hs)
      (atoi_toString (h.ids s hs)) (atoi_port (h.clientPorts s hs)) (h.clientPorts s hs)
  exact hline.serverMain_eq

/-- The load balancer has an address for each server and for nothing else. -/
theorem Deployable.loadBalancerMain_eq (h : Deployable sites) {port : ℤ}
    (hport : -2 ^ 31 ≤ port ∧ port < 2 ^ 31) :
    loadBalancerMain (loadBalancerLine port sites) =
      .ok (port, workerNodeMap (sites.map (Site.server Site.clientPort))) := by
  have hport' : intAt (loadBalancerLine port sites) 1 = .ok port :=
    intAt_eq_ok_iff.mpr ⟨_, rfl, atoi_toString hport⟩
  have hnum : intAt (loadBalancerLine port sites) 2 = .ok (sites.length : ℤ) :=
    intAt_eq_ok_iff.mpr ⟨_, rfl, atoi_length h le_rfl⟩
  have hworkers : readServers (loadBalancerLine port sites) (sites.length : ℤ).toNat 3 =
      .ok (sites.map (Site.server Site.clientPort)) :=
    readServers_eq_ok_iff.mpr ⟨by simp, siteWords Site.clientPort sites, [],
      (List.append_nil _).symm, spells_siteWords h.ids h.clientPorts⟩
  rw [loadBalancerMain, hport', ok_bind, hnum, ok_bind, hworkers]
  rfl

theorem Deployable.oneAddress (h : Deployable sites) (port : Site → ℤ) :
    OneAddress (sites.map (Site.server port)) := by
  intro x hx y hy hxy
  obtain ⟨s, hs, rfl⟩ := List.mem_map.mp hx
  obtain ⟨t, ht, rfl⟩ := List.mem_map.mp hy
  rw [List.inj_on_of_nodup_map h.distinct hs ht hxy]

theorem mem_workerNodeMap_iff {port : Site → ℤ} (i : ℤ) :
    i ∈ workerNodeMap (sites.map (Site.server port)) ↔ i ∈ sites.map Site.id := by
  constructor
  · intro hi
    obtain ⟨address, haddress⟩ := Option.isSome_iff_exists.mp (Finmap.lookup_isSome.mpr hi)
    obtain ⟨s, hs, heq⟩ := List.mem_map.mp (lookup_workerNodeMap haddress)
    exact List.mem_map.mpr ⟨s, hs, congrArg Prod.fst heq⟩
  · intro hi
    obtain ⟨s, hs, rfl⟩ := List.mem_map.mp hi
    exact mem_insertAll (.inl ⟨_, List.mem_map_of_mem hs, rfl⟩)

theorem peersOf_others (s : Site) :
    ((s.others sites).map (Site.server Site.factoryPort)).map (fun x => (⟨x.1, -1⟩ : FactoryRec)) =
      peersOf (sites.map Site.id) s.id := by
  simp only [peersOf, Site.others, List.filter_map, List.map_map]
  rfl

end Deployments

/-- With the command lines of one deployment all servers start, whatever the others reply,
each with all others as its peers, so that they are a fresh cluster, and the load balancer
knows the address of each of them and no other. -/
theorem deployment_started [Zlib] {sites : List Site} (h : Deployable sites) {port : ℤ}
    (hport : -2 ^ 31 ≤ port ∧ port < 2 ^ 31) (uninit : ℤ → ℕ → Int32) :
    ∃ c : Cluster, Fresh c ∧
      (∀ s ∈ sites, ∃ args, serverMain (serverLine sites s) = .ok args ∧
        args.clientPortAddr = s.clientPort ∧ args.factoryPortAddr = s.factoryPort ∧
        (∀ replies, Server.start args.factoryId args.factoriesRecord [] (uninit s.id) replies =
          .ok (c s.id).server) ∧
        (c s.id).server.peerIds = (sites.map Site.id).filter (· ≠ s.id)) ∧
      ∃ workerNodesMap, loadBalancerMain (loadBalancerLine port sites) =
          .ok (port, workerNodesMap) ∧
        (∀ i, i ∈ workerNodesMap ↔ i ∈ sites.map Site.id) ∧
        ∀ s ∈ sites, workerNodesMap.lookup s.id = some (s.ip, s.clientPort) := by
  refine ⟨booted (peersOf (sites.map Site.id)) uninit, booted_peersOf_fresh uninit h.distinct,
    fun s hs => ?_, ?_⟩
  · refine ⟨_, h.serverMain_eq hs, rfl, rfl, fun replies => ?_, ?_⟩
    · rw [ServerArgs.factoriesRecord, peersOf_others]
      exact start_empty ..
    · simp [booted, Server.opened, Server.peerIds, peersOf, Function.comp_def]
  · refine ⟨_, h.loadBalancerMain_eq hport, mem_workerNodeMap_iff, fun s hs => ?_⟩
    · exact (h.oneAddress Site.clientPort).lookup_eq
        (List.mem_map_of_mem (f := Site.server Site.clientPort) hs)

def duoSites : List Site := [⟨0, "10.0.0.1", 5001, 8001⟩, ⟨1, "10.0.0.2", 5002, 8002⟩]

theorem deployment_started_duo : ∃ c : Cluster, Fresh c ∧ (c 0).server.peerIds = [1] ∧
    ∃ workerNodesMap, loadBalancerMain (loadBalancerLine 8000 duoSites) =
      .ok (8000, workerNodesMap) ∧ workerNodesMap.lookup 1 = some ("10.0.0.2", 8002) := by
  have h : Deployable duoSites := ⟨by decide, by decide, by decide, by decide, by decide⟩
  have hport : -2 ^ 31 ≤ (8000 : ℤ) ∧ (8000 : ℤ) < 2 ^ 31 := by decide
  obtain ⟨c, hfresh, hservers, workerNodesMap, hmain, -, hlookup⟩ :=
    deployment_started h hport fun _ _ => 0
  obtain ⟨args, -, -, -, -, hpeers⟩ := hservers _ List.mem_cons_self
  exact ⟨c, hfresh, hpeers, workerNodesMap, hmain,
    hlookup _ (List.mem_cons_of_mem _ List.mem_cons_self)⟩

end RobotFactory
