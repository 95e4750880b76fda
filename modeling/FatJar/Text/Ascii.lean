namespace FatJar.Ascii

def lower (s : String) : List Char :=
  s.toList.map Char.toLower

def eqIgnoreCase (s t : String) : Bool :=
  lower s == lower t

end FatJar.Ascii
