import CppTry.DataUtil

namespace CppTry

namespace DataUtil

end DataUtil

end CppTry
