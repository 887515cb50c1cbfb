import LongMode.Decode.Opcode.TwoByte

/-!
The three-byte opcode maps: opcodes behind 0F 38 and 0F 3A. The machine executes none of them, so
the tables give names, operands and the prefixes under which an opcode exists.
-/

set_option autoImplicit false
set_option relaxedAutoImplicit false

namespace LongMode.Decode.Opcode

/-- The entry of an opcode in a list of names, if it is there. -/
def nameIn (names : List (Nat × String)) (op : Nat) : Option String :=
  (names.find? fun pair => pair.1 == op).map (·.2)

/-- Operations of 0F 38 on registers of both banks. -/
def bothBanks38 : List (Nat × String) :=
  [(0x00, "Pshufb"), (0x01, "Phaddw"), (0x02, "Phaddd"), (0x03, "Phaddsw"), (0x04, "Pmaddubsw"),
    (0x05, "Phsubw"), (0x06, "Phsubd"), (0x07, "Phsubsw"), (0x08, "Psignb"), (0x09, "Psignw"),
    (0x0a, "Psignd"), (0x0b, "Pmulhrsw"), (0x1c, "Pabsb"), (0x1d, "Pabsw"), (0x1e, "Pabsd")]

/-- Operations of 0F 38 that need the operand-size prefix and read 16 bytes. -/
def wholeVectors38 : List (Nat × String) :=
  [(0x10, "Pblendvb"), (0x14, "Blendvps"), (0x15, "Blendvpd"), (0x17, "Ptest"), (0x28, "Pmuldq"),
    (0x29, "Pcmpeqq"), (0x2b, "Packusdw"), (0x37, "Pcmpgtq"), (0x38, "Pminsb"), (0x39, "Pminsd"),
    (0x3a, "Pminuw"), (0x3b, "Pminud"), (0x3c, "Pmaxsb"), (0x3d, "Pmaxsd"), (0x3e, "Pmaxuw"),
    (0x3f, "Pmaxud"), (0x40, "Pmulld"), (0x41, "Phminposuw"), (0xcf, "Gf2p8mulb"), (0xdb, "Aesimc"),
    (0xdc, "Aesenc"), (0xdd, "Aesenclast"), (0xde, "Aesdec"), (0xdf, "Aesdeclast")]

/-- The widths by which the six lane extensions read memory. -/
def extensionBytes : Nat → Nat
  | 0 | 3 | 5 => 8
  | 1 | 4 => 4
  | _ => 2

/-- Lane extensions of 0F 38, with sign at 20 and with zeros at 30. -/
def laneExtension (op : Nat) : Option (String × Nat) :=
  let lanes := ["bw", "bd", "bq", "wd", "wq", "dq"]
  let stem := if op / 16 = 2 then "Pmovsx" else "Pmovzx"
  (lanes[op % 16]?).map fun lane => (stem ++ lane, extensionBytes (op % 16))

/-- Hash steps of 0F 38 without prefix. -/
def hashSteps38 : List (Nat × String) :=
  [(0xc8, "Sha1nexte"), (0xc9, "Sha1msg1"), (0xca, "Sha1msg2"), (0xcb, "Sha256rnds2"),
    (0xcc, "Sha256msg1"), (0xcd, "Sha256msg2")]

/-- The key locker instructions under a repeat prefix: `D8` works on eight registers, the others on
one. -/
def keyLocker (op : Nat) : Entry :=
  match op with
  | 0xd8 => .modRm fun r =>
      if r.isRegister then none
      else
        match r.reg with
        | 0 => other "Aesencwide128kl" [.memory 48]
        | 1 => other "Aesdecwide128kl" [.memory 48]
        | 2 => other "Aesencwide256kl" [.memory 64]
        | 3 => other "Aesdecwide256kl" [.memory 64]
        | _ => none
  | 0xdc => memoryOr (other "Aesenc128kl" [V, .memory 48]) (other "Loadiwkey" [V, W])
  | 0xdd => memoryOnly (.other "Aesdec128kl") [V, .memory 48]
  | 0xde => memoryOnly (.other "Aesenc256kl") [V, .memory 64]
  | 0xdf => memoryOnly (.other "Aesdec256kl") [V, .memory 64]
  | _ => .invalid

/-- A name that depends on the width of the operand. -/
def sized (c : Context) (stem : String) : Mnemonic :=
  .other (stem ++ if c.dwordOrQword = .qword then "q" else "d")

/-- Opcodes F0 to FF of 0F 38. -/
def rowF38 (c : Context) (op : Nat) : Entry :=
  let My : Form := .memoryOf .dwordOrQword
  match op with
  | 0xf0 => byPrefix c
      (memoryOnly (.other "Movbe") [Gv, .memoryOf .operand])
      (memoryOnly (.other "Movbe") [Gv, .memoryOf .operand])
      .invalid (any (.other "Crc32") [Gy, Eb])
  | 0xf1 => byPrefix c
      (memoryOnly (.other "Movbe") [.memoryOf .operand, Gv])
      (memoryOnly (.other "Movbe") [.memoryOf .operand, Gv])
      .invalid (any (.other "Crc32") [Gy, Ev])
  | 0xf5 => only66 c (memoryOnly (sized c "Wruss") [My, Gy])
  | 0xf6 => byPrefix c (memoryOnly (sized c "Wrss") [My, Gy])
      (any (.other "Adcx") [Gy, Ey]) (any (.other "Adox") [Gy, Ey]) .invalid
  | 0xf8 =>
    let move (name : String) : Entry := memoryOnly (.other name) [.reg .address, .memory 64]
    byPrefix c .invalid (move "Movdir64b") (move "Enqcmds") (move "Enqcmd")
  | 0xf9 => unprefixed c (memoryOnly (.other "Movdiri") [My, Gy])
  | 0xfa => byPrefix c .invalid .invalid (registerOnly (.other "Encodekey128") [Gd, Ed]) .invalid
  | 0xfb => byPrefix c .invalid .invalid (registerOnly (.other "Encodekey256") [Gd, Ed]) .invalid
  | 0xfc =>
    let update (name : String) : Entry := memoryOnly (.other name) [My, Gy]
    byPrefix c (update "Aadd") (update "Aand") (update "Axor") (update "Aor")
  | _ => .invalid

/-- An operation that needs the operand-size prefix on an opcode the key locker shares. -/
def wholeVector38 (c : Context) (op : Nat) (name : String) : Entry :=
  byPrefix c .invalid (any (.other name) [V, W]) (keyLocker op) .invalid

/-- The map behind 0F 38. -/
def map38 (c : Context) (op : Nat) : Entry :=
  match nameIn bothBanks38 op, nameIn wholeVectors38 op, nameIn hashSteps38 op with
  | some name, _, _ => bothVectorsOther c name
  | _, some name, _ => wholeVector38 c op name
  | _, _, some name => unprefixed c (any (.other name) [V, W])
  | _, _, _ =>
    match op with
    | 0x2a => only66 c (memoryOnly (.other "Movntdqa") [V, .memory 16])
    | 0x80 => only66 c (memoryOnly (.other "Invept") [.reg .native, .memory 16])
    | 0x81 => only66 c (memoryOnly (.other "Invvpid") [.reg .native, .memory 16])
    | 0x82 => only66 c (memoryOnly (.other "Invpcid") [.reg .native, .memory 16])
    | 0xd8 => byPrefix c .invalid .invalid (keyLocker op) .invalid
    | _ =>
      if op / 16 = 2 ∨ op / 16 = 3 then
        match laneExtension op with
        | some (name, bytes) => only66 c (any (.other name) [V, Wn bytes])
        | none => .invalid
      else rowF38 c op

/-- Operations of 0F 3A that need the operand-size prefix: the name, and the bytes read from
memory. -/
def vectors3A : List (Nat × String × Nat) :=
  [(0x08, "Roundps", 16), (0x09, "Roundpd", 16), (0x0a, "Roundss", 4), (0x0b, "Roundsd", 8),
    (0x0c, "Blendps", 16), (0x0d, "Blendpd", 16), (0x0e, "Pblendw", 16), (0x21, "Insertps", 4),
    (0x40, "Dpps", 16), (0x41, "Dppd", 16), (0x42, "Mpsadbw", 16), (0x44, "Pclmulqdq", 16),
    (0x62, "Pcmpistrm", 16), (0x63, "Pcmpistri", 16), (0xce, "Gf2p8affineqb", 16),
    (0xcf, "Gf2p8affineinvqb", 16), (0xdf, "Aeskeygenassist", 16)]

/-- The map behind 0F 3A. Every instruction ends in a one-byte constant. -/
def map3A (c : Context) (op : Nat) : Entry :=
  let wide := c.dwordOrQword = .qword
  match vectors3A.find? fun row => row.1 == op with
  | some (_, name, bytes) => only66 c (any (.other name) [V, Wn bytes, Ib])
  | none =>
    match op with
    | 0x0f => by66 c (any (.other "Palignr") [P, Q, Ib]) (any (.other "Palignr") [V, W, Ib])
    | 0x14 => only66 c (any (.other "Pextrb") [.rmOr .dwordOrQword 1, V, Ib])
    | 0x15 => only66 c (any .pextrw [.rmOr .dwordOrQword 2, V, Ib])
    | 0x16 => only66 c (any (sized c "Pextr") [Ey, V, Ib])
    | 0x17 => only66 c (any (.other "Extractps") [.rmOr .dwordOrQword 4, V, Ib])
    | 0x20 => only66 c (any (.other "Pinsrb") [V, .rmOr .dwordOrQword 1, Ib])
    | 0x22 => only66 c (any (sized c "Pinsr") [V, Ey, Ib])
    | 0x60 => only66 c (any (.other (if wide then "Pcmpestrm64" else "Pcmpestrm")) [V, W, Ib])
    | 0x61 => only66 c (any (.other (if wide then "Pcmpestri64" else "Pcmpestri")) [V, W, Ib])
    | 0xcc => unprefixed c (any (.other "Sha1rnds4") [V, W, Ib])
    | 0xf0 => byPrefix c .invalid .invalid
        (.modRm fun r => if r = ⟨3, 0, 0⟩ then other "Hreset" [Ib] else none) .invalid
    | _ => .invalid

end LongMode.Decode.Opcode
