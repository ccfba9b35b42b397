import CrossLookup.Sponge.Montgomery

/-!
# The sponge permutation

Five rounds on sixteen base elements. A round substitutes every cell, mixes
them by a circulant matrix and adds its constants. The first four cells are
substituted byte by byte in Montgomery form, the others by the seventh power.
-/

namespace CrossLookup

/-- The cells of the sponge. -/
abbrev SpongeState := Vector Goldilocks 16

namespace SpongeState

/-- The number of cells. -/
def width : Nat := 16

/-- The number of leading cells that take input and give output. -/
def rate : Nat := 10

/-- The number of rounds. -/
def rounds : Nat := 5

/-- The number of leading cells substituted byte by byte. -/
def splitCells : Nat := 4

set_option maxRecDepth 2000 in
/-- The substitution of bytes. -/
def byteTable : Vector UInt8 256 := #v[
      0,   7,  26,  63, 124, 215,  85, 254, 214, 228,  45, 185, 140, 173,  33, 240,
     29, 177, 176,  32,   8, 110,  87, 202, 204,  99, 150, 106, 230,  14, 235, 128,
    213, 239, 212, 138,  23, 130, 208,   6,  44,  71,  93, 116, 146, 189, 251,  81,
    199,  97,  38,  28,  73, 179,  95,  84, 152,  48,  35, 119,  49,  88, 242,   3,
    148, 169,  72, 120,  62, 161, 166,  83, 175, 191, 137,  19, 100, 129, 112,  55,
    221, 102, 218,  61, 151, 237,  68, 164,  17, 147,  46, 234, 203, 216,  22, 141,
     65,  57, 123,  12, 244,  54, 219, 231,  96,  77, 180, 154,   5, 253, 133, 165,
     98, 195, 205, 134, 245,  30,   9, 188,  59, 142, 186, 197, 181, 144,  92,  31,
    224, 163, 111,  74,  58,  69, 113, 196,  67, 246, 225,  10, 121,  50,  60, 157,
     90, 122,   2, 250, 101,  75, 178, 159,  24,  36, 201,  11, 243, 132, 198, 190,
    114, 233,  39,  52,  21, 209, 108, 238,  91, 187,  18, 104, 194,  37, 153,  34,
    200, 143, 126, 155, 236, 118,  64,  80, 172,  89,  94, 193, 135, 183,  86, 107,
    252,  13, 167, 206, 136, 220, 207, 103, 171, 160,  76, 182, 227, 217, 158,  56,
    174,   4,  66, 109, 139, 162, 184, 211, 249,  47, 125, 232, 117,  43,  16,  42,
    127,  20, 241,  25, 149, 105, 156,  51,  53, 168, 145, 247, 223,  79,  78, 226,
     15, 222,  82, 115,  70, 210,  27,  41,   1, 170,  40, 131, 192, 229, 248, 255]

/-- The first column of the circulant mixing matrix. -/
def mixingColumn : Vector UInt64 16 := #v[
    61402, 1108, 28750, 33823, 7454, 43244, 53865, 12034,
    56951, 27521, 41351, 40901, 12021, 59689, 26798, 17845]

/-- The constants of every round, sixteen each. -/
def roundConstants : Vector UInt64 80 := #v[
    0xBD2A3DEB61AB60DE, 0xEA7DF21AD9547ED2, 0x900B3677A1DE063F, 0x1B46887E876C8677,
    0xD364D977889CFB97, 0xDC8DFAC843699F02, 0x375C405D7190DB58, 0x27924006D2B0D4B1,
    0x78DD1172D483CD38, 0x3346C66244882A56, 0xB0249B279F498AA5, 0x94CD51BE79338D4D,
    0xB0E0DC7052C5B218, 0xF8DCC4D248ADAD95, 0x68E3C635FEC868B7, 0xD7D06B3FFB6B0D8C,
    0xF3500DEA20EF032A, 0x4865BF175BBA5803, 0xD5F7FE3027287A27, 0xA57333F44E193412,
    0x8726E153A977EAE2, 0x3014A98463FC191B, 0xBA145461AF39B212, 0x03AB70105933202F,
    0x3D90B7EEBFCF71E5, 0x386322B1CC520BFD, 0x27C2C8DAF774F675, 0x4FCB83F50309BC6A,
    0x5E6D5CE8275F3CB3, 0xECC2F6592C8F905C, 0x837F532461E609B4, 0xB2B1F6B95C92C93C,
    0xC0027AF556411DC1, 0x16E18C885FC2A26C, 0x8880EF183D9F2BF3, 0xB2930BDB5CA88C45,
    0x9C2EC8322E1C1553, 0xE5B05EAF3220A674, 0xA49CC6AE4B861C4E, 0x11708E0AEB86EBD7,
    0xC09DE92BBC3902E0, 0x929B3C79516BCBC1, 0xE006E5BF738F27D1, 0x2D9E1EC0EAC8EA38,
    0x0984D8D94BF937C5, 0x4959273C220E6747, 0xFE1D934207E796FA, 0x2B9B9298F2F6DD73,
    0x07A1F5A67D6E3A41, 0x4407593EE73743D9, 0x9F054720EF802E59, 0x78D4B711336E6AA6,
    0xADC638AEF3C8B228, 0xA4D6D3E86AFB2114, 0x9D4808E725531968, 0x369804DF3866D0EF,
    0xE6DBD9A9D2215024, 0x8ED22CA212EE85B2, 0x397BB882FCD23EB6, 0xEB8F8786D7277531,
    0x9999D4CDAFF543B5, 0xF382A61217F192D6, 0x49C37260B026ADC1, 0x3FF8918CE35C1019,
    0x2E7DF8B76080BD07, 0xF5DBAC250B8A28B9, 0x853C3727AE9DA4CC, 0xB2F1F5F3D9E5A26D,
    0x3FCE22012D337847, 0x6B5A3E6DB7EEE347, 0x171582CD59DDE50D, 0xC0C0B3095EE62A8A,
    0x665B25C6F6A203D2, 0x3099AED93B6AE69F, 0x801DF6092BE69C38, 0x8066AD0CDFFF43CD,
    0x8AF9D44A5F4FDC6B, 0xD80219CD97C0D762, 0x10C9CEBA14148EBB, 0x539BD4C3F2F24474]

/-- Substitute byte `i` of a word. -/
def substituteByte (w : UInt64) (i : Nat) : UInt64 :=
  let byte := (w >>> (8 * i).toUInt64).toUInt8
  (byteTable.get ⟨byte.toNat, byte.toNat_lt⟩).toUInt64 <<< (8 * i).toUInt64

/-- Substitute all eight bytes of a word. -/
def substituteBytes (w : UInt64) : UInt64 :=
  (List.range 8).foldl (fun acc i => acc ||| substituteByte w i) 0

/-- Substitute the bytes of an element's Montgomery form. -/
def splitAndLookup (a : Goldilocks) : Goldilocks :=
  Montgomery.leave (substituteBytes (Montgomery.enter a))

/-- The seventh power. -/
def seventhPower (a : Goldilocks) : Goldilocks :=
  let square := a * a
  let fourth := square * square
  a * square * fourth

/-- Substitute every cell. -/
def substitute (s : SpongeState) : SpongeState :=
  s.mapIdx fun i a => if i < splitCells then splitAndLookup a else seventhPower a

/-- The matrix entry at a row and a column: the matrix is circulant. -/
def mixingEntry (row col : Fin 16) : Goldilocks :=
  .ofWord mixingColumn[row - col]

/-- Multiply the state by the mixing matrix. -/
def mix (s : SpongeState) : SpongeState :=
  Vector.ofFn fun row =>
    (List.finRange 16).foldl (fun acc col => acc + mixingEntry row col * s[col]) 0

/-- Add the constants of a round. -/
def addConstants (round : Fin 5) (s : SpongeState) : SpongeState :=
  s.mapFinIdx fun i a h => a + .ofWord (roundConstants.get ⟨round.val * 16 + i, by omega⟩)

/-- One round. -/
def applyRound (s : SpongeState) (round : Fin 5) : SpongeState :=
  addConstants round (mix (substitute s))

/-- All rounds in order. -/
@[irreducible] def permute (s : SpongeState) : SpongeState :=
  (List.finRange 5).foldl applyRound s

end SpongeState

end CrossLookup
