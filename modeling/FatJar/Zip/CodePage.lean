import FatJar.Text.Utf8

namespace FatJar.Zip

def codePageTail : Array Char :=
  String.toList (
    "ÇüéâäàåçêëèïîìÄÅÉæÆôöòûùÿÖÜ¢£¥₧ƒ" ++
    "áíóúñÑªº¿⌐¬½¼¡«»░▒▓│┤╡╢╖╕╣║╗╝╜╛┐" ++
    "└┴┬├─┼╞╟╚╔╩╦╠═╬╧╨╤╥╙╘╒╓╫╪┘┌█▄▌▐▀" ++
    "αßΓπΣσµτΦΘΩδ∞φε∩≡±≥≤⌠⌡÷≈°∙·√ⁿ²■\u00a0") |>.toArray

def codePageChar (b : UInt8) : Char :=
  if b < 128 then Char.ofNat b.toNat else codePageTail.getD (b.toNat - 128) '?'

def decodeCodePage (bs : Bytes) : String :=
  String.ofList (bs.map codePageChar)

end FatJar.Zip
