import Concord.Text.Pieces

/-!
# Help

The texts that describe the program.
-/

namespace Concord

open Text

/-- The description of the command line. -/
def helpText : String :=
  unlines
    ["Verificador sintáctico para un subconjunto reducido del inglés",
      "",
      "Usage: verificador [OPTIONS] [TEXT]",
      "",
      "Arguments:",
      "  [TEXT]  Oración a analizar",
      "",
      "Options:",
      "  -f, --file <ARCHIVO>         Archivo de entrada (una oración por línea)",
      "      --lexicon <ARCHIVO>      Léxico que reemplaza al incorporado " ++
        "(formato palabra|categoría|número)",
      "  -d, --custom-dict <ARCHIVO>  Léxico adicional que amplía el activo",
      "      --format <FORMAT>        Formato de salida [default: text] " ++
        "[possible values: text, json]",
      "  -t, --tokens                 Muestra los tokens reconocidos",
      "  -v, --verbose                Mensajes informativos por stderr",
      "  -h, --help                   Print help",
      "  -V, --version                Print version",
      "",
      "EJEMPLOS:",
      "    verificador \"the dog eats the apple\"",
      "    verificador -f oraciones.txt",
      "    verificador --format json \"the dogs eats , the cat runs\"",
      "    verificador -d mi_lexico.txt \"the robot beeps\""]

/-- The name and the version. -/
def versionText : String := unlines ["verificador 0.1.0"]

end Concord
