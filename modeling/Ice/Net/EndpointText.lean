import Ice.Net.Endpoint

namespace Ice.Net

/-- `inet_pton` for the two families next to `inet_ntop`. A text that is not an address is
`.error none`; an error of the call itself carries its code. -/
structure InetText extends Inet where
  pton4 : String → Except (Option Errno) (Vector (BitVec 8) 4)
  pton6 : String → Except (Option Errno) (Vector (BitVec 8) 16)

def find (text pattern : List Char) (pos : Nat) : Option Nat :=
  (List.range (text.length + 1)).find? fun i => pos ≤ i && pattern.isPrefixOf (text.drop i)

inductive Address where
  | v4 (bytes : Vector (BitVec 8) 4)
  | v6 (bytes : Vector (BitVec 8) 16)
  deriving DecidableEq

namespace Endpoint

def address (e : Endpoint) : Option Address :=
  if e.size = sockaddrInSize then some (.v4 e.sinAddr)
  else if e.size = sockaddrIn6Size then some (.v6 e.sin6Addr)
  else none

def setByte {n : Nat} (bytes : Vector (BitVec 8) n) (i : Fin n) (byte : BitVec 8) :
    Vector (BitVec 8) n :=
  bytes.set i.val byte i.isLt

def setFamily (os : Os) (e : Endpoint) (family : Int) : Endpoint :=
  -- `sin_family`, two bytes from the start of the structure on, or on FreeBSD the second one.
  match os with
  | .freebsd => { e with storage := setByte e.storage 1 (BitVec.ofInt 8 family) }
  | _ =>
      { e with
        storage :=
          setByte (setByte e.storage 0 (BitVec.ofInt 8 family)) 1 (BitVec.ofInt 8 (family / 256)) }

def setPort (e : Endpoint) (port : BitVec 16) : Endpoint :=
  { e with
    storage := setByte (setByte e.storage 2 (port.extractLsb' 8 8)) 3 (port.extractLsb' 0 8) }

def setSinAddr (e : Endpoint) (bytes : Vector (BitVec 8) 4) : Endpoint :=
  { e with storage := Vector.ofFn fun i =>
      if within : 4 ≤ i.val ∧ i.val < 8 then bytes[i.val - 4] else e.storage[i] }

def setSin6Addr (e : Endpoint) (bytes : Vector (BitVec 8) 16) : Endpoint :=
  { e with storage := Vector.ofFn fun i =>
      if within : 8 ≤ i.val ∧ i.val < 24 then bytes[i.val - 8] else e.storage[i] }

/-- The pattern is the literal `":"` with a count of 5, so that its end and the three characters
`beyond` it are searched for too. -/
def pattern (beyond : Vector Char 3) : List Char := ':' :: '\x00' :: beyond.toList

def make (os : Os) (inet : InetText) (beyond : Vector Char 3) (e : Endpoint) (host : String)
    (port : BitVec 16) : Except ErrorCode Endpoint :=
  let invalid (error : Option Errno) := ErrorCode.native (error.getD Errno.einval)
  if find host.toList (pattern beyond) 0 = none then
    let e := { (e.setFamily os afInet).setPort port with size := sockaddrInSize }
    match inet.pton4 host with
    | .ok bytes => .ok (e.setSinAddr bytes)
    | .error error => .error (invalid error)
  else
    let e := { (e.setFamily os (afInet6 os)).setPort port with size := sockaddrIn6Size }
    match inet.pton6 host with
    | .ok bytes => .ok (e.setSin6Addr bytes)
    | .error error => .error (invalid error)

/-- What is known of the system's functions: an address of the first family has no colon, one of the
second has a colon among its first five characters, and what is printed is read back. -/
structure Lawful (inet : InetText) : Prop where
  plain : ∀ text bytes, inet.pton4 text = .ok bytes → ':' ∉ text.toList
  colon : ∀ text bytes, inet.pton6 text = .ok bytes → ':' ∈ text.toList.take 5
  round4 : ∀ bytes, ∃ text, inet.ntop4 bytes = some text ∧ inet.pton4 text = .ok bytes
  round6 : ∀ bytes, ∃ text, inet.ntop6 bytes = some text ∧ inet.pton6 text = .ok bytes

structure TextKept (os : Os) (inet : InetText) (beyond : Vector Char 3) (e : Endpoint)
    (host : String) (port : BitVec 16) : Prop where
  throws : (∃ ec, make os inet beyond e host port = .error ec) ↔
    (∀ bytes, inet.pton4 host ≠ .ok bytes) ∧ ∀ bytes, inet.pton6 host ≠ .ok bytes
  kept : ∀ made, make os inet beyond e host port = .ok made →
    (∀ bytes, inet.pton4 host = .ok bytes →
      made.family os = afInet ∧ inet.pton4 (made.host inet.toInet) = .ok bytes) ∧
    (∀ bytes, inet.pton6 host = .ok bytes →
      made.family os = afInet6 os ∧ inet.pton6 (made.host inet.toInet) = .ok bytes) ∧
    made.port = port
  again : ∀ made, make os inet beyond e host port = .ok made → ∀ other : Endpoint,
    ∃ remade, make os inet beyond other (made.host inet.toInet) made.port = .ok remade ∧
      remade.family os = made.family os ∧ remade.address = made.address ∧ remade.port = made.port

variable {os : Os} {inet : InetText} {beyond : Vector Char 3} {e : Endpoint} {host : String}
  {port : BitVec 16}

theorem find_eq_none {text pattern : List Char} {c : Char} (pos : Nat) (member : c ∈ pattern)
    (absent : c ∉ text) : find text pattern pos = none := by
  unfold find
  rw [List.find?_eq_none]
  intro i _ found
  simp only [Bool.and_eq_true, List.isPrefixOf_iff_prefix] at found
  exact absent (List.mem_of_mem_drop (found.2.subset member))

theorem sinPort_setPort : (e.setPort port).sinPort = port := by
  have joined : port.extractLsb' 8 8 ++ port.extractLsb' 0 8 = port.extractLsb' 0 16 :=
    BitVec.extractLsb'_append_extractLsb'_eq_extractLsb' rfl
  show ((e.storage.set 2 (port.extractLsb' 8 8)).set 3 (port.extractLsb' 0 8))[2] ++
    ((e.storage.set 2 (port.extractLsb' 8 8)).set 3 (port.extractLsb' 0 8))[3] = port
  simpa using joined

theorem sinPort_setSinAddr (bytes : Vector (BitVec 8) 4) :
    (e.setSinAddr bytes).sinPort = e.sinPort := by
  simp [sinPort, setSinAddr]

theorem sinAddr_setSinAddr (bytes : Vector (BitVec 8) 4) : (e.setSinAddr bytes).sinAddr = bytes := by
  apply Vector.ext
  intro i within
  have inside : 4 + i < 8 := by omega
  simp [sinAddr, setSinAddr, inside]

def inet4 (os : Os) (e : Endpoint) (bytes : Vector (BitVec 8) 4) (port : BitVec 16) : Endpoint :=
  setSinAddr { (e.setFamily os afInet).setPort port with size := sockaddrInSize } bytes

theorem inet4_family (bytes : Vector (BitVec 8) 4) :
    (inet4 os e bytes port).family os = afInet := rfl

theorem inet4_host (bytes : Vector (BitVec 8) 4) :
    (inet4 os e bytes port).host inet.toInet = (inet.ntop4 bytes).getD "" := by
  show (inet.ntop4 (inet4 os e bytes port).sinAddr).getD "" = _
  rw [inet4, sinAddr_setSinAddr]

theorem inet4_address (bytes : Vector (BitVec 8) 4) :
    (inet4 os e bytes port).address = some (.v4 bytes) := by
  show some (Address.v4 (inet4 os e bytes port).sinAddr) = _
  rw [inet4, sinAddr_setSinAddr]

theorem inet4_port (bytes : Vector (BitVec 8) 4) : (inet4 os e bytes port).port = port := by
  show (inet4 os e bytes port).sinPort = port
  rw [inet4, sinPort_setSinAddr]
  exact sinPort_setPort

theorem make_eq (os : Os) (inet : InetText) (beyond : Vector Char 3) (e : Endpoint)
    (port : BitVec 16) (clean : '\x00' ∉ host.toList) :
    make os inet beyond e host port =
      match inet.pton4 host with
      | .ok bytes => .ok (inet4 os e bytes port)
      | .error error => .error (.native (error.getD Errno.einval)) := by
  have unfound : find host.toList (pattern beyond) 0 = none :=
    find_eq_none 0 (by simp [pattern]) clean
  simp only [make, unfound, ↓reduceIte]
  rfl

theorem remake_eq {bytes : Vector (BitVec 8) 4} (plain : ':' ∉ host.toList)
    (accepted : inet.pton4 host = .ok bytes) :
    make os inet beyond e host port = .ok (inet4 os e bytes port) := by
  have unfound : find host.toList (pattern beyond) 0 = none :=
    find_eq_none 0 (by simp [pattern]) plain
  simp only [make, unfound, ↓reduceIte, accepted]
  rfl

/-- Of the hosts without a NUL, those whose text is kept are exactly the ones that are no address of
the second family: the pattern searched for holds a NUL, so the host is always given to the first. -/
theorem text_kept_iff (os : Os) (inet : InetText) (beyond : Vector Char 3) (e : Endpoint)
    (host : String) (port : BitVec 16)
    (lawful : Lawful inet) (clean : '\x00' ∉ host.toList) :
    TextKept os inet beyond e host port ↔ ∀ bytes, inet.pton6 host ≠ .ok bytes := by
  have made := make_eq os inet beyond e port clean
  constructor
  · intro kept bytes accepted
    have colons : ':' ∈ host.toList := List.mem_of_mem_take (lawful.colon host bytes accepted)
    cases first : inet.pton4 host with
    | ok other => exact lawful.plain host other first colons
    | error error =>
        simp only [first] at made
        exact (kept.throws.mp ⟨_, made⟩).2 bytes accepted
  · intro refused
    cases first : inet.pton4 host with
    | error error =>
        simp only [first] at made
        constructor
        · exact iff_of_true ⟨_, made⟩ ⟨by simp [first], refused⟩
        · simp [made]
        · simp [made]
    | ok bytes =>
        simp only [first] at made
        obtain ⟨text, presented, accepted⟩ := lawful.round4 bytes
        have hosts : (inet4 os e bytes port).host inet.toInet = text := by
          rw [inet4_host, presented]
          rfl
        constructor
        · simp [made, first]
        · intro result same
          have built := Except.ok.inj (made.symm.trans same)
          subst built
          refine ⟨fun other found => ?_, fun other found => absurd found (refused other),
            inet4_port bytes⟩
          cases first.symm.trans found
          exact ⟨inet4_family bytes, by rw [hosts, accepted]⟩
        · intro result same other
          have built := Except.ok.inj (made.symm.trans same)
          subst built
          rw [hosts, inet4_port]
          refine ⟨inet4 os other bytes port, remake_eq (lawful.plain text bytes accepted) accepted, ?_⟩
          exact ⟨by rw [inet4_family, inet4_family], by rw [inet4_address, inet4_address],
            inet4_port bytes⟩

section Fields
variable {β : Type} (separator : Char) (print : β → List Char) (parse : List Char → Option β)

def printFields {n : Nat} (fields : Vector β n) : String :=
  .ofList ([separator].intercalate (fields.toList.map print))

def readFields (n : Nat) (text : String) : Option (Vector β n) :=
  match (text.toList.splitOn separator).mapM parse with
  | some fields =>
      if whole : fields.length = n ∧
          text = .ofList ([separator].intercalate (fields.map print)) then
        some ⟨fields.toArray, whole.1⟩
      else none
  | none => none

variable {separator print parse}

theorem readFields_printFields {n : Nat} (fields : Vector β (n + 1))
    (inverse : ∀ field, parse (print field) = some field)
    (apart : ∀ field, separator ∉ print field) :
    readFields separator print parse (n + 1) (printFields separator print fields) =
      some fields := by
  have nonempty : fields.toList.map print ≠ [] := by
    intro empty
    have count := congrArg List.length empty
    simp at count
  have split : (printFields separator print fields).toList.splitOn separator =
      fields.toList.map print := by
    rw [printFields, String.toList_ofList, List.splitOn_intercalate separator _ nonempty]
    intro field member
    obtain ⟨value, _, rfl⟩ := List.mem_map.mp member
    exact apart value
  have read : (fields.toList.map print).mapM parse = some fields.toList := by
    have each : (fun field => parse (print field)) = fun field => pure field := funext inverse
    rw [List.mapM_map, Function.comp_def, each, List.mapM_pure]
    simp
  unfold readFields
  rw [split, read]
  simp [printFields, Vector.toList]

theorem eq_printFields {n : Nat} {text : String} {fields : Vector β n}
    (read : readFields separator print parse n text = some fields) :
    text = printFields separator print fields := by
  unfold readFields at read
  split at read
  next parts _ =>
    split at read
    next whole =>
      cases read
      exact whole.2
    next => cases read
  next => cases read

theorem mem_intercalate {c : Char} {parts : List (List Char)}
    (member : c ∈ [separator].intercalate parts) : c = separator ∨ ∃ part ∈ parts, c ∈ part := by
  induction parts with
  | nil => simp at member
  | cons part parts ih =>
      cases parts with
      | nil => exact .inr ⟨part, by simp, by simpa using member⟩
      | cons next parts =>
          rw [List.intercalate_cons_cons] at member
          simp only [List.mem_append, List.mem_singleton] at member
          rcases member with (here | same) | later
          · exact .inr ⟨part, by simp, here⟩
          · exact .inl same
          · obtain same | ⟨other, place, inside⟩ := ih later
            · exact .inl same
            · exact .inr ⟨other, List.mem_cons_of_mem _ place, inside⟩

theorem notMem_printFields {n : Nat} {c : Char} (fields : Vector β n) (other : c ≠ separator)
    (apart : ∀ field, c ∉ print field) : c ∉ (printFields separator print fields).toList := by
  rw [printFields, String.toList_ofList]
  intro member
  rcases mem_intercalate member with same | ⟨part, place, inside⟩
  · exact other same
  · obtain ⟨field, _, rfl⟩ := List.mem_map.mp place
    exact apart field inside

end Fields

def decimal (byte : BitVec 8) : List Char := Nat.toDigits 10 byte.toNat

def hexadecimal (byte : BitVec 8) : List Char :=
  [Nat.digitChar (byte.toNat / 16), Nat.digitChar (byte.toNat % 16)]

def digit (c : Char) : Nat := if c.isDigit then c.toNat - '0'.toNat else c.toNat - 'a'.toNat + 10

def readByte (base : Nat) (print : BitVec 8 → List Char) (text : List Char) : Option (BitVec 8) :=
  let byte := BitVec.ofNat 8 (text.foldl (fun value c => base * value + digit c) 0)
  if print byte = text then some byte else none

theorem readByte_decimal : ∀ byte, readByte 10 decimal (decimal byte) = some byte := by
  decide +kernel

theorem readByte_hexadecimal : ∀ byte, readByte 16 hexadecimal (hexadecimal byte) = some byte := by
  decide +kernel

theorem decimal_apart : ∀ byte, '.' ∉ decimal byte ∧ ':' ∉ decimal byte := by
  decide +kernel

theorem hexadecimal_apart : ∀ byte, ':' ∉ hexadecimal byte := by
  decide +kernel

def readGroup : List Char → Option (BitVec 8 × BitVec 8)
  | [a, b, c, d] =>
      match readByte 16 hexadecimal [a, b], readByte 16 hexadecimal [c, d] with
      | some first, some second => some (first, second)
      | _, _ => none
  | _ => none

def printGroup (group : BitVec 8 × BitVec 8) : List Char :=
  hexadecimal group.1 ++ hexadecimal group.2

def groups (bytes : Vector (BitVec 8) 16) : Vector (BitVec 8 × BitVec 8) 8 :=
  .ofFn fun i => (bytes[2 * i.val], bytes[2 * i.val + 1])

def ofGroups (groups : Vector (BitVec 8 × BitVec 8) 8) : Vector (BitVec 8) 16 :=
  .ofFn fun i => if i.val % 2 = 0 then groups[i.val / 2].1 else groups[i.val / 2].2

def loopback6 : Vector (BitVec 8) 16 := .ofFn fun i => if i = 15 then 1 else 0

def literals : InetText where
  ntop4 bytes := some (printFields '.' decimal bytes)
  ntop6 bytes := some (if bytes = loopback6 then "::1" else printFields ':' printGroup (groups bytes))
  pton4 text :=
    match readFields '.' decimal (readByte 10 decimal) 4 text with
    | some bytes => .ok bytes
    | none => .error none
  pton6 text :=
    if text = "::1" then .ok loopback6
    else match readFields ':' printGroup readGroup 8 text with
      | some read => .ok (ofGroups read)
      | none => .error none

theorem readGroup_printGroup (group : BitVec 8 × BitVec 8) :
    readGroup (printGroup group) = some group := by
  have first := readByte_hexadecimal group.1
  have second := readByte_hexadecimal group.2
  simp only [hexadecimal] at first second
  simp [readGroup, printGroup, hexadecimal, first, second]

theorem ofGroups_groups (bytes : Vector (BitVec 8) 16) : ofGroups (groups bytes) = bytes := by
  apply Vector.ext
  intro i within
  simp only [ofGroups, groups, Vector.getElem_ofFn]
  split
  next even =>
    congr 1
    omega
  next odd =>
    congr 1
    omega

theorem printGroups_eq (fields : Vector (BitVec 8 × BitVec 8) 8) :
    ∃ group rest,
      (printFields ':' printGroup fields).toList = printGroup group ++ [':'] ++ rest := by
  rw [printFields, String.toList_ofList]
  have count : fields.toList.length = 8 := by simp
  cases list : fields.toList with
  | nil => simp [list] at count
  | cons first fields =>
      cases fields with
      | nil => simp [list] at count
      | cons second fields => exact ⟨first, _, List.intercalate_cons_cons⟩

theorem literals_lawful : Lawful literals where
  plain := by
    intro text bytes accepted
    simp only [literals] at accepted
    split at accepted
    next fields read =>
      rw [eq_printFields read]
      exact notMem_printFields fields (by decide) fun byte => (decimal_apart byte).2
    next => cases accepted
  colon := by
    intro text bytes accepted
    simp only [literals] at accepted
    split at accepted
    next abbreviation =>
      rw [abbreviation]
      decide
    next =>
      split at accepted
      next fields read =>
        obtain ⟨group, rest, text⟩ := printGroups_eq fields
        rw [eq_printFields read, text]
        simp [printGroup, hexadecimal]
      next => cases accepted
  round4 := by
    intro bytes
    refine ⟨_, rfl, ?_⟩
    simp only [literals]
    rw [readFields_printFields bytes readByte_decimal fun byte => (decimal_apart byte).1]
  round6 := by
    intro bytes
    refine ⟨_, rfl, ?_⟩
    by_cases loopback : bytes = loopback6
    · simp [literals, loopback]
    · obtain ⟨group, rest, text⟩ := printGroups_eq (groups bytes)
      have long : printFields ':' printGroup (groups bytes) ≠ "::1" := by
        intro same
        simp [same, printGroup, hexadecimal] at text
      have apart : ∀ group, ':' ∉ printGroup group := by simp [printGroup, hexadecimal_apart]
      have read := readFields_printFields (groups bytes) readGroup_printGroup apart
      simp only [literals, loopback, long, ↓reduceIte]
      rw [read]
      exact congrArg Except.ok (ofGroups_groups bytes)

theorem text_kept_dotted_decimal :
    TextKept .linux literals #v['%', 'd', ':'] { storage := .replicate 128 0 } "127.0.0.1" 8080 := by
  have refused : literals.pton6 "127.0.0.1" = .error none := by rfl
  apply (text_kept_iff .linux literals _ _ _ _ literals_lawful (by decide)).mpr
  intro bytes accepted
  cases refused.symm.trans accepted

theorem text_lost :
    ¬ ∀ (os : Os) (inet : InetText) (beyond : Vector Char 3) (e : Endpoint) (host : String)
      (port : BitVec 16), Lawful inet → '\x00' ∉ host.toList →
        TextKept os inet beyond e host port := by
  intro kept
  have clean : '\x00' ∉ "::1".toList := by decide
  have loopback := kept .linux literals #v['%', 'd', ':'] { storage := .replicate 128 0 } "::1" 8080
    literals_lawful clean
  have refused : literals.pton4 "::1" = .error none := by rfl
  have made := make_eq .linux literals #v['%', 'd', ':'] { storage := .replicate 128 0 } 8080 clean
  simp only [refused] at made
  exact (loopback.throws.mp ⟨_, made⟩).2 loopback6 rfl

end Endpoint

end Ice.Net
